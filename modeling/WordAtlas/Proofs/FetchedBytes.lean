import WordAtlas.Proofs.Layers
import WordAtlas.Stream.Instruction
import WordAtlas.Stream.Serial

/-!
# Fetched bytes

Fetching is the inverse of writing words as bytes.  What a buffer holds from a position on is said
by a prefix: the bytes of some words *lie* there when they are a prefix of the rest of the buffer.
Where the bytes of a word lie, reading gives the word (`Source.readWord_of_lies`), and where two
bytes are left, the bytes of some word lie (`Source.exists_word`).  Both facts carry over to several
words by induction on their number.

A fetch therefore succeeds exactly where an instruction word lies with as many operand words behind
it as its definition asks for.  A run of fetches goes from one such place to the next, so its words
laid end to end are the bytes between the first position and the last.  The main statement is
`fetch_inverts_bytesOf`.
-/

namespace WordAtlas

/-- The words of an instruction, in the order in which they are read. -/
def Instruction.words (instruction : Instruction) : List Int :=
  instruction.word :: (instruction.xWords ++ instruction.yWords)

/-- The instruction that some words make up. -/
def Instruction.ofWords (address : Int) (d : Definition) (w : Word) (xs ys : List Word) :
    Instruction :=
  ⟨address, w.val, d, xs.map fun x => (x.val : Int), ys.map fun y => (y.val : Int)⟩

/-- An instruction is two bytes long for each of its words. -/
@[simp] theorem Instruction.length_ofWords (address : Int) (d : Definition) (w : Word)
    (xs ys : List Word) :
    (ofWords address d w xs ys).length = 2 * (1 + xs.length + ys.length) := by
  simp [ofWords, length]

/-- The words of an instruction are its first word and then those of its operands. -/
theorem Instruction.words_ofWords (address : Int) (d : Definition) (w : Word) (xs ys : List Word) :
    (ofWords address d w xs ys).words = (w :: (xs ++ ys)).map fun v => (v.val : Int) := by
  simp [ofWords, words]

/-! ## Words that lie in a buffer -/

/-- The bytes of words behind others lie behind theirs. -/
theorem Word.bytesOf_append (words more : List Word) :
    bytesOf (words ++ more) = bytesOf words ++ bytesOf more :=
  List.flatMap_append

/-- Words lie in a buffer one behind the other. -/
theorem Word.bytesOf_append_prefix_iff {bytes : List UInt8} {pos : Nat} {words more : List Word} :
    bytesOf (words ++ more) <+: bytes.drop pos ↔
      bytesOf words <+: bytes.drop pos ∧ bytesOf more <+: bytes.drop (pos + 2 * words.length) := by
  have hdrop : bytes.drop (pos + 2 * words.length) =
      (bytes.drop pos).drop (bytesOf words).length := by
    rw [List.drop_drop, length_bytesOf]
  rw [bytesOf_append, hdrop]
  constructor
  · intro h
    have hfirst : bytesOf words <+: bytes.drop pos := (List.prefix_append _ _).trans h
    refine ⟨hfirst, ?_⟩
    rwa [← List.prefix_iff_eq_append.mp hfirst, List.prefix_append_right_inj] at h
  · intro h
    obtain ⟨hfirst, hrest⟩ := h
    rw [← List.prefix_iff_eq_append.mp hfirst, List.prefix_append_right_inj]
    exact hrest

/-- Words lie at a position exactly if the first does and the others lie behind it. -/
theorem Word.bytesOf_cons_prefix_iff {bytes : List UInt8} {pos : Nat} {w : Word}
    {rest : List Word} :
    bytesOf (w :: rest) <+: bytes.drop pos ↔
      w.bytes <+: bytes.drop pos ∧ bytesOf rest <+: bytes.drop (pos + 2) := by
  have hsingle : bytesOf [w] = w.bytes := List.append_nil w.bytes
  rw [← hsingle]
  exact @bytesOf_append_prefix_iff bytes pos [w] rest

/-- Any two bytes are those of a word. -/
theorem Word.exists_bytes (high low : UInt8) : ∃ w : Word, w.bytes = [high, low] := by
  have hhigh := high.toNat_lt
  have hlow := low.toNat_lt
  refine ⟨⟨256 * high.toNat + low.toNat, by omega⟩, ?_⟩
  have hquotient : (256 * high.toNat + low.toNat) / 256 = high.toNat := by omega
  have hremainder : (256 * high.toNat + low.toNat) % 256 = low.toNat := by omega
  rw [bytes, hquotient, hremainder, UInt8.ofNat_toNat, UInt8.ofNat_toNat]

namespace Source

variable {bytes : List UInt8} {base : Int} {table : Table} {pos : Nat}

/-- Where a word lies, two bytes are left. -/
theorem two_left_of_lies {w : Word} (h : w.bytes <+: bytes.drop pos) : pos + 2 ≤ bytes.length := by
  have hlength := h.length_le
  rw [Word.length_bytes, List.length_drop] at hlength
  omega

/-- Where two bytes are left, some word lies. -/
theorem exists_word (h : pos + 2 ≤ bytes.length) : ∃ w : Word, w.bytes <+: bytes.drop pos := by
  obtain ⟨w, hw⟩ := Word.exists_bytes bytes[pos] bytes[pos + 1]
  refine ⟨w, bytes.drop (pos + 2), ?_⟩
  rw [hw, List.drop_eq_getElem_cons (show pos < bytes.length by omega),
    List.drop_eq_getElem_cons (show pos + 1 < bytes.length by omega)]
  rfl

/-- Where as many words fit, some words lie. -/
theorem exists_words {count : Nat} (h : pos + 2 * count ≤ bytes.length) :
    ∃ words : List Word, words.length = count ∧ Word.bytesOf words <+: bytes.drop pos := by
  induction count generalizing pos with
  | zero => exact ⟨[], rfl, List.nil_prefix⟩
  | succ count ih =>
      have hhere : pos + 2 ≤ bytes.length := by omega
      have hthere : pos + 2 + 2 * count ≤ bytes.length := by omega
      obtain ⟨w, hw⟩ := exists_word hhere
      obtain ⟨rest, hlength, hrest⟩ := ih hthere
      refine ⟨w :: rest, ?_, Word.bytesOf_cons_prefix_iff.mpr ⟨hw, hrest⟩⟩
      rw [List.length_cons, hlength]

/-- Where a word lies, it is read. -/
theorem readWord_of_lies {w : Word} (h : w.bytes <+: bytes.drop pos) :
    (buffer bytes base).readWord pos = ⟨.ok (w.val : Int), ((pos + 2 : Nat) : Int), []⟩ := by
  have hleft := two_left_of_lies h
  have htake : (bytes.drop pos).take 2 = w.bytes := (List.prefix_iff_eq_take.mp h).symm
  have hbytes : (buffer bytes base).bytesAt .word pos = (.ok w.bytes, []) := by
    have hspan : Layout.word.span = 2 := rfl
    have hsize : Layout.word.packedSize = 2 := rfl
    rw [bytesAt_buffer, hspan, hsize, htake, if_neg (by omega)]
  unfold readWord unpack
  rw [hbytes]
  change (⟨.ok (bigEndian w.bytes : Int), _, _⟩ : Attempt Int) = _
  rw [Word.bigEndian_bytes]
  rfl

/-- Where fewer than two bytes are left, nothing is read. -/
theorem readWord_of_short (h : bytes.length < pos + 2) :
    (buffer bytes base).readWord pos = ⟨.error .tooShort, pos, []⟩ := by
  have hbytes : (buffer bytes base).bytesAt .word pos = (.error .tooShort, []) := by
    have hspan : Layout.word.span = 2 := rfl
    rw [bytesAt_buffer, hspan, if_pos h]
  unfold readWord unpack
  rw [hbytes]

/-- Where words lie, they are read. -/
theorem readWords_of_lies {words : List Word} {count : Nat} (hcount : words.length = count)
    (h : Word.bytesOf words <+: bytes.drop pos) :
    (buffer bytes base).readWord.times count pos =
      ⟨.ok (words.map fun w => (w.val : Int)), ((pos + 2 * count : Nat) : Int), []⟩ := by
  subst hcount
  induction words generalizing pos with
  | nil => rfl
  | cons w rest ih =>
      obtain ⟨hfirst, hrest⟩ := Word.bytesOf_cons_prefix_iff.mp h
      have hend : pos + 2 * (rest.length + 1) = pos + 2 + 2 * rest.length := by omega
      rw [List.length_cons, hend]
      exact Reading.bind_of_ok (readWord_of_lies hfirst) (Reading.bind_of_ok (ih hrest) rfl)

/-- Where too few bytes are left for as many words, reading stops at the last word. -/
theorem readWords_of_short {count : Nat} (hpos : pos ≤ bytes.length)
    (h : bytes.length < pos + 2 * count) :
    (buffer bytes base).readWord.times count pos =
      ⟨.error .tooShort, ((pos + 2 * ((bytes.length - pos) / 2) : Nat) : Int), []⟩ := by
  induction count generalizing pos with
  | zero => omega
  | succ count ih =>
      rw [Reading.times]
      by_cases hword : bytes.length < pos + 2
      · have hnone : (bytes.length - pos) / 2 = 0 := by omega
        rw [Reading.bind_of_error (readWord_of_short hword), hnone]
        rfl
      · obtain ⟨w, hw⟩ := exists_word (Nat.le_of_not_lt hword)
        have hrest := @ih (pos + 2) (by omega) (by omega)
        have hstop : pos + 2 * ((bytes.length - pos) / 2) =
            pos + 2 + 2 * ((bytes.length - (pos + 2)) / 2) := by omega
        rw [hstop]
        exact Reading.bind_of_ok (readWord_of_lies hw) (Reading.bind_of_error hrest)

/-! ## Instructions that lie in a buffer -/

/-- A word that decodes is decoded without moving and without asking for anything. -/
theorem decodeRead_of_ok {word place : Int} {d : Definition} (h : table.decodeNumber word = .ok d) :
    decodeRead table word place = ⟨.ok d, place, []⟩ := by
  unfold decodeRead
  rw [h]
  rfl

/-- A word that was read is decoded without reading on. -/
theorem decodeRead_val (w : Word) (place : Int) :
    decodeRead table w.val place = ⟨.ok (table.decode w), place, []⟩ :=
  decodeRead_of_ok (table.decodeNumber_val w)

/-- Where an instruction word lies with its operand words behind it, they are fetched. -/
theorem fetch_of_lies {w : Word} {xs ys : List Word}
    (hxs : xs.length = (table.decode w).xCount.val) (hys : ys.length = (table.decode w).yCount.val)
    (h : Word.bytesOf (w :: (xs ++ ys)) <+: bytes.drop pos) :
    (buffer bytes base).fetch table pos =
      ⟨.ok (.ofWords (base + pos) (table.decode w) w xs ys),
        ((pos + 2 * (1 + xs.length + ys.length) : Nat) : Int), []⟩ := by
  obtain ⟨hword, hoperands⟩ := Word.bytesOf_cons_prefix_iff.mp h
  obtain ⟨hx, hy⟩ := Word.bytesOf_append_prefix_iff.mp hoperands
  have hstop : pos + 2 * (1 + xs.length + ys.length) =
      pos + 2 + 2 * (table.decode w).xCount.val + 2 * (table.decode w).yCount.val := by omega
  rw [hxs] at hy
  rw [hstop]
  unfold fetch
  rw [Reading.position_bind]
  exact Reading.bind_of_ok (readWord_of_lies hword) (Reading.bind_of_ok (decodeRead_val w _)
    (Reading.bind_of_ok (readWords_of_lies hxs hx)
      (Reading.bind_of_ok (readWords_of_lies hys hy) rfl)))

/-- Where no word is left, a fetch fails at once. -/
theorem fetch_of_no_word (h : bytes.length < pos + 2) :
    (buffer bytes base).fetch table pos = ⟨.error .tooShort, pos, []⟩ := by
  unfold fetch
  rw [Reading.position_bind]
  exact Reading.bind_of_error (readWord_of_short h)

/-- Where operand words are missing, a fetch fails behind the last word that is left. -/
theorem fetch_of_short {w : Word} (hword : w.bytes <+: bytes.drop pos)
    (h : bytes.length < pos + 2 * (1 + (table.decode w).extraWords)) :
    (buffer bytes base).fetch table pos =
      ⟨.error .tooShort, ((pos + 2 * ((bytes.length - pos) / 2) : Nat) : Int), []⟩ := by
  have hleft := two_left_of_lies hword
  unfold Definition.extraWords at h
  unfold fetch
  rw [Reading.position_bind]
  refine Reading.bind_of_ok (readWord_of_lies hword) (Reading.bind_of_ok (decodeRead_val w _) ?_)
  by_cases hx : bytes.length < pos + 2 + 2 * (table.decode w).xCount.val
  · have hstop : pos + 2 * ((bytes.length - pos) / 2) =
        pos + 2 + 2 * ((bytes.length - (pos + 2)) / 2) := by omega
    rw [hstop]
    exact Reading.bind_of_error (readWords_of_short hleft hx)
  · have hxLeft := Nat.le_of_not_lt hx
    obtain ⟨xs, hxs, hhere⟩ := exists_words hxLeft
    have hstop : pos + 2 * ((bytes.length - pos) / 2) =
        pos + 2 + 2 * (table.decode w).xCount.val +
          2 * ((bytes.length - (pos + 2 + 2 * (table.decode w).xCount.val)) / 2) := by omega
    rw [hstop]
    exact Reading.bind_of_ok (readWords_of_lies hxs hhere)
      (Reading.bind_of_error (readWords_of_short hxLeft (by omega)))

/-- Behind an instruction word its operand words lie, if they fit. -/
theorem exists_operands {w : Word} (hword : w.bytes <+: bytes.drop pos)
    (h : pos + 2 * (1 + (table.decode w).extraWords) ≤ bytes.length) :
    ∃ xs ys : List Word, xs.length = (table.decode w).xCount.val ∧
      ys.length = (table.decode w).yCount.val ∧
      Word.bytesOf (w :: (xs ++ ys)) <+: bytes.drop pos := by
  unfold Definition.extraWords at h
  have hxFits : pos + 2 + 2 * (table.decode w).xCount.val ≤ bytes.length := by omega
  have hyFits : pos + 2 + 2 * (table.decode w).xCount.val +
      2 * (table.decode w).yCount.val ≤ bytes.length := by omega
  obtain ⟨xs, hxs, hx⟩ := exists_words hxFits
  obtain ⟨ys, hys, hy⟩ := exists_words hyFits
  rw [← hxs] at hy
  have hoperands := Word.bytesOf_append_prefix_iff.mpr ⟨hx, hy⟩
  exact ⟨xs, ys, hxs, hys, Word.bytesOf_cons_prefix_iff.mpr ⟨hword, hoperands⟩⟩

/-- A fetch that succeeds finds an instruction word with its operand words behind it. -/
theorem exists_prefix_of_fetch {i : Instruction}
    (h : ((buffer bytes base).fetch table pos).result = .ok i) :
    ∃ (w : Word) (xs ys : List Word), xs.length = (table.decode w).xCount.val ∧
      ys.length = (table.decode w).yCount.val ∧
      Word.bytesOf (w :: (xs ++ ys)) <+: bytes.drop pos := by
  by_cases hword : bytes.length < pos + 2
  · rw [fetch_of_no_word hword] at h
    cases h
  · obtain ⟨w, hw⟩ := exists_word (Nat.le_of_not_lt hword)
    by_cases hshort : bytes.length < pos + 2 * (1 + (table.decode w).extraWords)
    · rw [fetch_of_short hw hshort] at h
      cases h
    · exact ⟨w, exists_operands hw (Nat.le_of_not_lt hshort)⟩

/-! ## Runs of fetches -/

/-- After a fetch that succeeds, the run goes on behind the instruction. -/
theorem run_fetch_of_ok {place stop : Int} {i : Instruction} {source : Source} {asked : List Int}
    (h : source.fetch table place = ⟨.ok i, stop, asked⟩) (n : Nat) :
    source.run table place (List.replicate (n + 1) .fetch) =
      ⟨.ok (.instruction i), stop, asked ++ []⟩ ::
        source.run table stop (List.replicate n .fetch) := by
  have hperform : source.perform table .fetch place = ⟨.ok (.instruction i), stop, asked ++ []⟩ :=
    Reading.bind_of_ok h rfl
  rw [List.replicate_succ, run_cons, hperform]

/-- Where the step succeeds, an instruction was fetched. -/
theorem exists_fetch_of_perform {place : Int} {outcome : Outcome} {source : Source}
    (h : (source.perform table .fetch place).result = .ok outcome) :
    ∃ i, (source.fetch table place).result = .ok i := by
  cases hfetch : source.fetch table place with
  | mk result stop asked =>
      cases result with
      | ok i => exact ⟨i, rfl⟩
      | error e =>
          have hperform : source.perform table .fetch place = ⟨.error e, stop, asked⟩ :=
            Reading.bind_of_error hfetch
          rw [hperform] at h
          cases h

/-- Instructions that follow each other in a buffer from the position `pos` on and end at the
positions `stops`. -/
structure Follow (bytes : List UInt8) (base : Int) (pos : Nat) (instructions : List Instruction)
    (stops : List Int) : Prop where
  first : ∀ i, instructions[0]? = some i → i.address = base + (pos : Int)
  next : ∀ k i j, instructions[k]? = some i → instructions[k + 1]? = some j →
    j.address = i.address + (i.length : Int)
  advance : ∀ (k : Nat) (start stop : Int), ((pos : Int) :: stops)[k]? = some start →
    stops[k]? = some stop → start + 2 ≤ stop
  /-- Their words, laid end to end, are the bytes from the first position to the last. -/
  written : ∃ words : List Word,
    instructions.flatMap Instruction.words = words.map (fun w => (w.val : Int)) ∧
    Word.bytesOf words <+: bytes.drop pos ∧
    stops.getLastD (pos : Int) = ((pos + 2 * words.length : Nat) : Int)

/-- No instructions follow each other anywhere. -/
theorem Follow.nil : Follow bytes base pos [] [] where
  first := by simp
  next := by simp
  advance := by simp
  written := ⟨[], rfl, List.nil_prefix, by simp⟩

/-- What a further fetch in front adds. -/
theorem Follow.cons {d : Definition} {w : Word} {xs ys : List Word} {rest : List Instruction}
    {stops : List Int} (hhere : Word.bytesOf (w :: (xs ++ ys)) <+: bytes.drop pos)
    (h : Follow bytes base (pos + 2 * (1 + xs.length + ys.length)) rest stops) :
    Follow bytes base pos (.ofWords (base + pos) d w xs ys :: rest)
      (((pos + 2 * (1 + xs.length + ys.length) : Nat) : Int) :: stops) where
  first := by
    intro i hi
    cases hi
    rfl
  next := by
    intro k i j hi hj
    cases k with
    | zero =>
        cases hi
        have hfirst := h.first j hj
        rw [Instruction.length_ofWords, hfirst]
        simp only [Instruction.ofWords]
        omega
    | succ k => exact h.next k i j hi hj
  advance := by
    intro k start stop hstart hstop
    cases k with
    | zero =>
        cases hstart
        cases hstop
        omega
    | succ k => exact h.advance k start stop hstart hstop
  written := by
    obtain ⟨words, hwords, hlies, hend⟩ := h.written
    have hlength : (w :: (xs ++ ys)).length = 1 + xs.length + ys.length := by
      rw [List.length_cons, List.length_append]
      omega
    refine ⟨(w :: (xs ++ ys)) ++ words, ?_, ?_, ?_⟩
    · rw [List.flatMap_cons, Instruction.words_ofWords, hwords, ← List.map_append]
    · rw [← hlength] at hlies
      exact Word.bytesOf_append_prefix_iff.mpr ⟨hhere, hlies⟩
    · rw [List.getLastD_cons, hend, List.length_append, hlength]
      omega

/-- By induction on their number, fetches that all succeed give instructions that follow each
other. -/
theorem follow_of_run {n : Nat} {instructions : List Instruction}
    (h : ((buffer bytes base).run table pos (List.replicate n .fetch)).map Attempt.result =
      instructions.map fun i => .ok (.instruction i)) :
    Follow bytes base pos instructions
      (((buffer bytes base).run table pos (List.replicate n .fetch)).map Attempt.pos) := by
  induction n generalizing pos instructions with
  | zero =>
      cases instructions with
      | nil => exact .nil
      | cons i rest => cases h
  | succ n ih =>
      cases instructions with
      | nil => cases h
      | cons i rest =>
          have hfirst := h
          rw [List.replicate_succ, run_cons, List.map_cons, List.map_cons,
            List.cons.injEq] at hfirst
          obtain ⟨fetched, hfetched⟩ := exists_fetch_of_perform hfirst.1
          obtain ⟨w, xs, ys, hxs, hys, hhere⟩ := exists_prefix_of_fetch hfetched
          have hfetch := @fetch_of_lies _ base _ _ _ _ _ hxs hys hhere
          rw [run_fetch_of_ok hfetch, List.map_cons, List.map_cons, List.cons.injEq] at h
          obtain ⟨hhead, hrest⟩ := h
          cases hhead
          rw [run_fetch_of_ok hfetch, List.map_cons]
          exact .cons hhere (ih hrest)

/-- **Fetching is the inverse of writing words as bytes.**  Where the bytes of an instruction word
and of its operand words lie, they are fetched; and what fetches give, one after the other, is what
lies between their first position and their last. -/
theorem fetch_inverts_bytesOf (table : Table) (base : Int) :
    (∀ (before after : List UInt8) (w : Word) (xs ys : List Word),
      xs.length = (table.decode w).xCount.val → ys.length = (table.decode w).yCount.val →
      ∃ i : Instruction,
        (buffer (before ++ Word.bytesOf (w :: (xs ++ ys)) ++ after) base).fetch table
          before.length = ⟨.ok i, (before.length : Int) + (i.length : Int), []⟩ ∧
        i.address = base + before.length ∧ i.word = w.val ∧ i.definition = table.decode w ∧
        i.xWords = xs.map (fun x => (x.val : Int)) ∧
        i.yWords = ys.map (fun y => (y.val : Int))) ∧
    ∀ (bytes : List UInt8) (pos n : Nat) (instructions : List Instruction),
      ((buffer bytes base).run table pos (List.replicate n .fetch)).map Attempt.result =
          instructions.map (fun i => .ok (.instruction i)) →
        Follow bytes base pos instructions
          (((buffer bytes base).run table pos (List.replicate n .fetch)).map Attempt.pos) := by
  constructor
  · intro before after w xs ys hxs hys
    have hhere : Word.bytesOf (w :: (xs ++ ys)) <+:
        (before ++ Word.bytesOf (w :: (xs ++ ys)) ++ after).drop before.length := by
      rw [List.append_assoc, List.drop_left]
      exact List.prefix_append _ _
    refine ⟨.ofWords (base + before.length) (table.decode w) w xs ys, ?_, rfl, rfl, rfl, rfl, rfl⟩
    rw [fetch_of_lies hxs hys hhere, Instruction.length_ofWords, Int.natCast_add]
  · intro bytes pos n instructions h
    exact follow_of_run h

open Table

/-- An instruction with an operand word and one without, between other bytes. -/
def pairBytes : List UInt8 :=
  [0xFF, 0x12, 0x34, 0xAB, 0xCD, 0x13, 0x40, 0xFF]

/-- The first of them is fetched with its operand word. -/
theorem exists_fetch_pairBytes :
    ∃ table, build pairCatalogs .empty = .ok table ∧
      (buffer pairBytes 0x100).fetch table 1 =
        ⟨.ok (.ofWords 0x101 (Catalog.entry 0x1200 0xFF00 .d 1 0 "LOAD" "u" "") 0x1234 [0xABCD] []),
          5, []⟩ := by
  obtain ⟨table, hbuild, -, hlast⟩ :=
    exists_table validate_pairCatalogs (length_applied_pairCatalogs .empty)
  have hdecode := ((hlast 0x1234).unique lastClaim_pairCatalogs).2
  have hxs : [(0xABCD : Word)].length = (table.decode 0x1234).xCount.val := by
    rw [hdecode]
    rfl
  have hys : ([] : List Word).length = (table.decode 0x1234).yCount.val := by
    rw [hdecode]
    rfl
  have hlies : Word.bytesOf (0x1234 :: ([0xABCD] ++ [])) <+: pairBytes.drop 1 :=
    ⟨[0x13, 0x40, 0xFF], by decide⟩
  have hfetch := @fetch_of_lies _ 0x100 _ _ _ _ _ hxs hys hlies
  rw [hdecode] at hfetch
  exact ⟨table, hbuild, hfetch⟩

/-- Two instructions are read from the bytes, one behind the other. -/
theorem fetch_pairBytes :
    ∃ table, build pairCatalogs .empty = .ok table ∧
      [(0xABCD : Word)].length = (table.decode 0x1234).xCount.val ∧
      ([] : List Word).length = (table.decode 0x1234).yCount.val ∧
      ∃ i j, (buffer pairBytes 0x100).fetch table 1 = ⟨.ok i, 5, []⟩ ∧
        i.word = 0x1234 ∧ i.xWords = [0xABCD] ∧
        ((buffer pairBytes 0x100).run table 1 (List.replicate 2 .fetch)).map Attempt.result =
          [.ok (.instruction i), .ok (.instruction j)] ∧
        i.address = 0x101 ∧ j.address = i.address + (i.length : Int) := by
  obtain ⟨table, hbuild, -, hlast⟩ :=
    exists_table validate_pairCatalogs (length_applied_pairCatalogs .empty)
  have hdecode := ((hlast 0x1234).unique lastClaim_pairCatalogs).2
  have hdecode' := ((hlast 0x1340).unique lastClaim_pairCatalogs_second).2
  have hx : [(0xABCD : Word)].length = (table.decode 0x1234).xCount.val := by
    rw [hdecode]
    rfl
  have hy : ([] : List Word).length = (table.decode 0x1234).yCount.val := by
    rw [hdecode]
    rfl
  have hx' : ([] : List Word).length = (table.decode 0x1340).xCount.val := by
    rw [hdecode']
    rfl
  have hy' : ([] : List Word).length = (table.decode 0x1340).yCount.val := by
    rw [hdecode']
    rfl
  obtain ⟨hwrite, hread⟩ := fetch_inverts_bytesOf table 0x100
  obtain ⟨i, hi, -, hword, -, hxWords, hyWords⟩ :=
    hwrite [0xFF] [0x13, 0x40, 0xFF] 0x1234 [0xABCD] [] hx hy
  obtain ⟨j, hj, -, -, -, -, -⟩ := hwrite [0xFF, 0x12, 0x34, 0xAB, 0xCD] [0xFF] 0x1340 [] [] hx' hy'
  have hlength : i.length = 4 := by
    rw [Instruction.length, hxWords, hyWords]
    rfl
  rw [hlength] at hi
  have hfirst : (buffer pairBytes 0x100).fetch table 1 = ⟨.ok i, 5, []⟩ := hi
  have hsecond : (buffer pairBytes 0x100).fetch table 5 = ⟨.ok j, 5 + (j.length : Int), []⟩ := hj
  have hrun : ((buffer pairBytes 0x100).run table 1 (List.replicate 2 .fetch)).map Attempt.result =
      [.ok (.instruction i), .ok (.instruction j)] := by
    rw [run_fetch_of_ok hfirst, run_fetch_of_ok hsecond]
    rfl
  have hfollow := hread pairBytes 1 2 [i, j] hrun
  exact ⟨table, hbuild, hx, hy, i, j, hfirst, hword, hxWords, hrun, hfollow.first i rfl,
    hfollow.next 0 i j rfl rfl⟩

end Source

end WordAtlas
