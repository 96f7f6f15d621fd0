import WordAtlas.Proofs.EndsOfData
import WordAtlas.Proofs.ReadsInTurn

/-!
# Looking ahead

To look at a word and to read it are two different things to do.  A look finds the two bytes itself
and joins them bit by bit, a reading takes bytes of a layout and makes a number of them; each has
its own test for the end of the data.  All the same a look tells in advance what a reading will give
(`Attempt.Foretells`), if the source is plain from there on: a buffer at a position that is not
negative, or a memory in which every cell that holds something holds a byte.

A look `k` words ahead begins where `k` readings end, so it foretells the reading that comes after
them, be it a value or an error.  Words that were read, and so the words of an instruction that was
fetched, can therefore all be seen beforehand (`Source.Shows`).  The main statement is
`Source.peek_foretells_read`.
-/

namespace WordAtlas

/-- A look finds what a reading gives, a value or an error, and asks for the same addresses. -/
structure Attempt.Foretells {α : Type} (look reading : Attempt α) : Prop where
  result : look.result = reading.result
  asked : look.asked = reading.asked

namespace Source

variable {source : Source} {bytes : List UInt8} {base : Int} {cells : Int → Option Int}
  {table : Table} {pos stop offset : Int} {asked : List Int}

/-- From a position on there are only bytes, and none of them is counted from the end. -/
def IsPlainFrom : Source → Int → Prop
  | buffer _ _, pos => 0 ≤ pos
  | memory cells, _ => ∀ address, cells address = none ∨ HoldsByte cells address

/-- What is plain from a position on is so from every later one on. -/
theorem IsPlainFrom.mono {other : Int} (h : source.IsPlainFrom pos) (hle : pos ≤ other) :
    source.IsPlainFrom other := by
  cases source with
  | buffer bytes base => exact Int.le_trans h hle
  | memory cells => exact h

/-- The image of a buffer holds bytes or nothing. -/
theorem isPlainFrom_image (bytes : List UInt8) (base pos : Int) :
    (memory (image bytes base)).IsPlainFrom pos := by
  intro address
  by_cases hbefore : address < base
  · left
    rw [image, if_pos hbefore]
  · cases hbyte : bytes[(address - base).toNat]? with
    | none =>
        left
        rw [image, if_neg hbefore, hbyte]
        rfl
    | some byte =>
        right
        refine ⟨byte.toNat, ?_, by omega, Int.ofNat_lt.mpr byte.toNat_lt⟩
        rw [image, if_neg hbefore, hbyte]
        rfl

/-! ## A look and a reading at one place -/

/-- A look leaves the position where it is. -/
@[simp] theorem pos_peek (source : Source) (offset pos : Int) :
    (source.peek offset pos).pos = pos := by
  cases source with
  | buffer bytes base =>
      rw [peek_buffer]
      split <;> rfl
  | memory cells =>
      rw [peek_memory]
      split <;> rfl

/-- A look from afar finds what a look from nearby finds. -/
theorem result_peek (source : Source) (offset pos : Int) :
    (source.peek offset pos).result = (source.peek 0 (pos + offset * 2)).result := by
  have hhere : pos + offset * 2 + 0 * 2 = pos + offset * 2 := by omega
  cases source with
  | buffer bytes base =>
      rw [peek_buffer, peek_buffer, hhere]
      split <;> rfl
  | memory cells =>
      rw [peek_memory, peek_memory, hhere]
      split <;> rfl

/-- A look at a place in a buffer foretells the reading there. -/
theorem peek_buffer_foretells {place : Nat} (h : pos + offset * 2 = place) :
    ((buffer bytes base).peek offset pos).Foretells ((buffer bytes base).readWord place) := by
  rw [peek_buffer, h, slice_natCast]
  by_cases hshort : bytes.length < place + 2
  · rw [if_pos (by omega), readWord_of_short hshort]
    exact ⟨rfl, rfl⟩
  · obtain ⟨w, hw⟩ := exists_word (Nat.le_of_not_lt hshort)
    have htake : (bytes.drop place).take 2 = w.bytes := (List.prefix_iff_eq_take.mp hw).symm
    rw [if_neg (by omega), readWord_of_lies hw, htake]
    refine ⟨?_, rfl⟩
    change Except.ok (bigEndian w.bytes : Int) = _
    rw [Word.bigEndian_bytes]

/-- A look at the cells of a word finds the word and asks for both cells. -/
theorem peekCells_of_holdsWord {w : Word} {start : Int} (h : HoldsWord cells start w) :
    peekCells cells start = (.ok (w.val : Int), [start, start + 1]) := by
  have hjoin : Bits.either (((w.val / 256 : Nat) : Int) * 256) ((w.val % 256 : Nat) : Int) =
      (w.val : Int) := by
    have hlow : w.val % 256 < 2 ^ 8 := Nat.mod_lt _ (by decide)
    have hadd := either_mul_two_pow (w.val / 256) hlow
    rw [show w.val / 256 * 2 ^ 8 + w.val % 256 = w.val by omega] at hadd
    exact hadd
  rw [peekCells]
  simp only [h.high, h.low, hjoin]

/-- In a memory with nothing but bytes, a look at an address foretells the reading there. -/
theorem peek_memory_foretells (hplain : (memory cells).IsPlainFrom pos) :
    ((memory cells).peek offset pos).Foretells ((memory cells).readWord (pos + offset * 2)) := by
  rw [peek_memory]
  generalize pos + offset * 2 = start
  by_cases hend : addressSpace < start + 2
  · rw [if_pos hend, readWord_of_no_room hend]
    exact ⟨rfl, rfl⟩
  rw [if_neg hend]
  have hroom := Int.not_lt.mp hend
  -- Both ask for one cell after the other, and the first that holds nothing ends both.
  rcases hplain start with hnone | hhigh
  · rw [readWord_of_lacksByte hroom (.nothing hnone), peekCells]
    simp only [hnone]
    exact ⟨rfl, rfl⟩
  rcases hplain (start + 1) with hnone | hlow
  · obtain ⟨z, hcell, hnonneg, hlt⟩ := hhigh
    obtain ⟨n, rfl⟩ := Int.eq_ofNat_of_zero_le hnonneg
    rw [readWord_of_lacksByte_low hroom hcell (by omega) (.nothing hnone), peekCells]
    simp only [hcell, hnone]
    exact ⟨rfl, rfl⟩
  · obtain ⟨w, hw⟩ := exists_holdsWord hhigh hlow
    rw [readWord_of_holdsWord hroom hw, peekCells_of_holdsWord hw]
    exact ⟨rfl, rfl⟩

/-- A look foretells the reading that begins at the place looked at. -/
theorem IsPlainFrom.foretells (hplain : source.IsPlainFrom (pos + offset * 2)) :
    (source.peek offset pos).Foretells (source.readWord (pos + offset * 2)) := by
  cases source with
  | buffer bytes base =>
      obtain ⟨place, hplace⟩ := Int.eq_ofNat_of_zero_le hplain
      rw [hplace]
      exact peek_buffer_foretells hplace
  | memory cells => exact peek_memory_foretells hplain

/-! ## Readings in a row -/

/-- Looks from a position on find the given words, one after the other. -/
def Shows (source : Source) (pos : Int) (words : List Int) : Prop :=
  ∀ (k : Nat) (z : Int), words[k]? = some z → (source.peek k pos).result = .ok z

/-- No words at all are shown everywhere. -/
theorem Shows.nil : source.Shows pos [] := by
  intro k z hz
  cases hz

/-- Words and the words behind them are shown together. -/
theorem Shows.append {words more : List Int} (h : source.Shows pos words)
    (h' : source.Shows (pos + 2 * (words.length : Int)) more) :
    source.Shows pos (words ++ more) := by
  intro k z hk
  by_cases hfirst : k < words.length
  · rw [List.getElem?_append_left hfirst] at hk
    exact h k z hk
  · rw [List.getElem?_append_right (by omega)] at hk
    have hlater := h' _ z hk
    have hplace : pos + 2 * (words.length : Int) + ((k - words.length : Nat) : Int) * 2 =
        pos + (k : Int) * 2 := by omega
    rw [result_peek, hplace] at hlater
    rw [result_peek, hlater]

/-- A word that is read is two bytes long. -/
theorem stop_of_readWord {z : Int} (h : source.readWord pos = ⟨.ok z, stop, asked⟩) :
    stop = pos + 2 := by
  cases hbytes : source.bytesAt .word pos with
  | mk result places =>
      unfold readWord unpack at h
      rw [hbytes] at h
      cases result with
      | error e => cases h
      | ok found =>
          cases h
          rfl

/-- A word that was read could be seen before. -/
theorem shows_of_readWord {z : Int} (hplain : source.IsPlainFrom pos)
    (h : source.readWord pos = ⟨.ok z, stop, asked⟩) : source.Shows pos [z] := by
  have hhere : pos + 0 * 2 = pos := by omega
  have hlook := (hplain.mono (Int.le_of_eq hhere.symm)).foretells.result
  rw [hhere, h] at hlook
  intro k z' hk
  cases k with
  | zero =>
      cases hk
      exact hlook
  | succ k => cases hk

/-- By induction on their number, so could words that were read one after the other. -/
theorem shows_of_readWords {count : Nat} {words : List Int} (hplain : source.IsPlainFrom pos)
    (h : source.readWord.times count pos = ⟨.ok words, stop, asked⟩) :
    words.length = count ∧ stop = pos + 2 * (count : Int) ∧ source.Shows pos words := by
  induction count generalizing pos words asked with
  | zero =>
      cases h
      exact ⟨rfl, by omega, Shows.nil⟩
  | succ count ih =>
      obtain ⟨z, mid, _, _, hword, hlater⟩ := Reading.exists_of_bind_ok h
      obtain ⟨more, behind, _, _, hmore, hpure⟩ := Reading.exists_of_bind_ok hlater
      cases hpure
      obtain rfl := stop_of_readWord hword
      obtain ⟨hlength, hstop, hshows⟩ := ih (hplain.mono (by omega)) hmore
      refine ⟨by rw [List.length_cons, hlength], by omega, ?_⟩
      exact (shows_of_readWord hplain hword).append hshows

/-- To decode a word that was read does not move the position. -/
theorem stop_of_decodeRead {word : Int} {d : Definition}
    (h : decodeRead table word pos = ⟨.ok d, stop, asked⟩) : stop = pos := by
  unfold decodeRead at h
  cases hdecode : table.decodeNumber word with
  | error refused =>
      rw [hdecode] at h
      cases h
  | ok found =>
      rw [hdecode] at h
      cases h
      rfl

/-- The words of an instruction that was fetched could be seen before. -/
theorem shows_of_fetch {i : Instruction} (hplain : source.IsPlainFrom pos)
    (h : source.fetch table pos = ⟨.ok i, stop, asked⟩) :
    i.words.length = 1 + i.definition.extraWords ∧ source.Shows pos i.words := by
  unfold fetch at h
  rw [Reading.position_bind] at h
  obtain ⟨word, mid, _, _, hword, h⟩ := Reading.exists_of_bind_ok h
  obtain ⟨d, mid', _, _, hdecode, h⟩ := Reading.exists_of_bind_ok h
  obtain ⟨xWords, behind, _, _, hx, h⟩ := Reading.exists_of_bind_ok h
  obtain ⟨yWords, behind', _, _, hy, h⟩ := Reading.exists_of_bind_ok h
  cases h
  -- Each part begins where the one before ended, so what follows on can be seen from the start.
  obtain rfl := stop_of_decodeRead hdecode
  obtain rfl := stop_of_readWord hword
  obtain ⟨hxLength, rfl, hxShows⟩ := shows_of_readWords (hplain.mono (by omega)) hx
  obtain ⟨hyLength, -, hyShows⟩ := shows_of_readWords (hplain.mono (by omega)) hy
  constructor
  · simp only [Instruction.words, List.length_cons, List.length_append, hxLength, hyLength,
      Definition.extraWords]
    omega
  · rw [← hxLength] at hyShows
    exact (shows_of_readWord hplain hword).append (hxShows.append hyShows)

/-- **Looks foretell readings.**  A look moves nothing.  Where a source is plain, a look as many
words ahead as can be read finds what the reading after them gives, a value or an error, and asks
for the same addresses; and looks find the words of an instruction, in order, before it is
fetched. -/
theorem peek_foretells_read (source : Source) (pos : Int) :
    (∀ offset, (source.peek offset pos).pos = pos) ∧
    (source.IsPlainFrom pos →
      (∀ (k : Nat) (words : List Int) (stop : Int) (asked : List Int),
        source.readWord.times k pos = ⟨.ok words, stop, asked⟩ →
          (source.peek k pos).Foretells (source.readWord stop)) ∧
      ∀ (table : Table) (i : Instruction), (source.fetch table pos).result = .ok i →
        (List.range (1 + i.definition.extraWords)).map (fun k : Nat => (source.peek k pos).result) =
          i.words.map .ok) := by
  refine ⟨fun offset => source.pos_peek offset pos, fun hplain => ⟨?_, ?_⟩⟩
  · intro k words stop asked h
    obtain ⟨-, rfl, -⟩ := shows_of_readWords hplain h
    rw [Int.mul_comm 2]
    exact (hplain.mono (by omega)).foretells
  · intro table i hi
    obtain ⟨hlength, hshows⟩ : i.words.length = 1 + i.definition.extraWords ∧
        source.Shows pos i.words := by
      cases hfetch : source.fetch table pos with
      | mk result stop asked =>
          rw [hfetch] at hi
          cases hi
          exact shows_of_fetch hplain hfetch
    apply List.ext_getElem
    · rw [List.length_map, List.length_map, List.length_range, hlength]
    · intro k hk hk'
      rw [List.length_map] at hk'
      rw [List.getElem_map, List.getElem_range, List.getElem_map]
      exact hshows k _ (List.getElem?_eq_getElem hk')

open Table

/-- The words of an instruction are seen in a buffer before it is fetched, and the end of a memory
is seen three words before it is met. -/
theorem peek_foretells_pairBytes :
    ∃ table i, build pairCatalogs .empty = .ok table ∧
      (buffer pairBytes 0x100).IsPlainFrom 1 ∧
      ((buffer pairBytes 0x100).fetch table 1).result = .ok i ∧
      (List.range (1 + i.definition.extraWords)).map
        (fun k : Nat => ((buffer pairBytes 0x100).peek k 1).result) = i.words.map .ok ∧
      i.words = [0x1234, 0xABCD] ∧
      (memory (image pairBytes 0x100)).IsPlainFrom 0x101 ∧
      (memory (image pairBytes 0x100)).readWord.times 3 0x101 =
        ⟨.ok [0x1234, 0xABCD, 0x1340], 0x107, [0x101, 0x102, 0x103, 0x104, 0x105, 0x106]⟩ ∧
      ((memory (image pairBytes 0x100)).peek 3 0x101).Foretells
        ((memory (image pairBytes 0x100)).readWord 0x107) ∧
      (memory (image pairBytes 0x100)).readWord 0x107 =
        ⟨.error .unmapped, 0x107, [0x107, 0x108]⟩ := by
  obtain ⟨table, hbuild, hfetch⟩ := exists_fetch_pairBytes
  have hresult := congrArg Attempt.result hfetch
  have hbuffer : (buffer pairBytes 0x100).IsPlainFrom 1 := show (0 : Int) ≤ 1 by decide
  have hmemory := isPlainFrom_image pairBytes 0x100 0x101
  have hreadings : (memory (image pairBytes 0x100)).readWord.times 3 0x101 =
      ⟨.ok [0x1234, 0xABCD, 0x1340], 0x107, [0x101, 0x102, 0x103, 0x104, 0x105, 0x106]⟩ := rfl
  have hlooks := ((peek_foretells_read (buffer pairBytes 0x100) 1).2 hbuffer).2 table _ hresult
  have hahead := ((peek_foretells_read (memory (image pairBytes 0x100)) 0x101).2 hmemory).1
    3 _ _ _ hreadings
  exact ⟨table, _, hbuild, hbuffer, hresult, hlooks, rfl, hmemory, hreadings, hahead, rfl⟩

end Source

end WordAtlas
