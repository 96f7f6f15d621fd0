import WordAtlas.Proofs.FetchedBytes

/-!
# Ends of data

What happens where the data end.  A fetch from a buffer fails for one reason only, that the bytes
of the instruction do not fit into what is left; it has then read all words that do fit, so that
fewer than two bytes remain (`Source.fetch_fails_for_lack_of_bytes`).

Looking around is less careful.  The place looked at is compared with the end of the data, but not
with their start.  Before its start a buffer counts from its end, as far as the two bytes wanted
lie on that side; a memory is asked for the negative address as it stands.
`Source.peek_counts_from_end` says where a look finds a word and which looks stay within the data,
and `Source.peek_before_start` is a look that does not.
-/

namespace WordAtlas

/-- What an attempt to fetch an instruction of `size` bytes comes to when `left` bytes are left from
the position `pos` on. -/
structure Attempt.NeedsBytes (attempt : Attempt Instruction) (pos size left : Int) : Prop where
  succeeds_iff : (∃ i, attempt.result = .ok i) ↔ size ≤ left
  whole : size ≤ left → attempt.pos = pos + size
  /-- The words that are left are read, and at most one byte remains. -/
  short : left < size → attempt.result = .error .tooShort ∧
    attempt.pos = pos + 2 * (left / 2) ∧ pos + left - attempt.pos < 2

namespace Source

variable {bytes : List UInt8} {base : Int} {table : Table} {pos : Nat}

/-! ## Fetching at the end of a buffer -/

/-- Where all words of an instruction are left, it is fetched. -/
theorem exists_fetch_of_fits {w : Word} (hword : w.bytes <+: bytes.drop pos)
    (h : pos + 2 * (1 + (table.decode w).extraWords) ≤ bytes.length) :
    ∃ i, (buffer bytes base).fetch table pos =
      ⟨.ok i, ((pos + 2 * (1 + (table.decode w).extraWords) : Nat) : Int), []⟩ := by
  obtain ⟨xs, ys, hxs, hys, hlies⟩ := exists_operands hword h
  have hsize : 1 + xs.length + ys.length = 1 + (table.decode w).extraWords := by
    rw [hxs, hys, Definition.extraWords, Nat.add_assoc]
  rw [fetch_of_lies hxs hys hlies, hsize]
  exact ⟨_, rfl⟩

/-- Behind an instruction word there are enough bytes for its operand words or too few. -/
theorem fetch_needsBytes {w : Word} (hword : w.bytes <+: bytes.drop pos) :
    ((buffer bytes base).fetch table pos).NeedsBytes pos
      (2 * (1 + (table.decode w).extraWords) : Nat) (bytes.length - pos) := by
  have hleft := two_left_of_lies hword
  by_cases hshort : bytes.length < pos + 2 * (1 + (table.decode w).extraWords)
  · rw [fetch_of_short hword hshort]
    constructor
    case succeeds_iff =>
      refine iff_of_false ?_ (by omega)
      rintro ⟨i, hi⟩
      cases hi
    case whole => omega
    case short =>
      intro _
      refine ⟨rfl, ?_, ?_⟩
      · simp only
        omega
      · simp only
        omega
  · obtain ⟨i, hi⟩ := @exists_fetch_of_fits _ base _ _ _ hword (Nat.le_of_not_lt hshort)
    rw [hi]
    constructor
    case succeeds_iff => exact iff_of_true ⟨i, rfl⟩ (by omega)
    case whole => exact fun _ => Int.natCast_add _ _
    case short => omega

/-- **Fetches fail for lack of bytes.**  Where not even a word is left, a fetch fails at once.
Otherwise it succeeds exactly when as many bytes are left as the instruction takes that the word
belongs to, and if there are fewer, it fails behind the words that are left.  There is no other
error. -/
theorem fetch_fails_for_lack_of_bytes (table : Table) (bytes : List UInt8) (base : Int)
    (pos : Nat) :
    ((bytes.length : Int) - pos < 2 →
      (buffer bytes base).fetch table pos = ⟨.error .tooShort, pos, []⟩) ∧
    (2 ≤ (bytes.length : Int) - pos → ∃ w : Word, w.bytes <+: bytes.drop pos ∧
      ((buffer bytes base).fetch table pos).NeedsBytes pos
        (2 * (1 + (table.decode w).extraWords) : Nat) (bytes.length - pos)) ∧
    ∀ e, ((buffer bytes base).fetch table pos).result = .error e → e = .tooShort := by
  have hnone : (bytes.length : Int) - pos < 2 →
      (buffer bytes base).fetch table pos = ⟨.error .tooShort, pos, []⟩ :=
    fun h => fetch_of_no_word (by omega)
  have hsome : 2 ≤ (bytes.length : Int) - pos → ∃ w : Word, w.bytes <+: bytes.drop pos ∧
      ((buffer bytes base).fetch table pos).NeedsBytes pos
        (2 * (1 + (table.decode w).extraWords) : Nat) (bytes.length - pos) := by
    intro h
    obtain ⟨w, hw⟩ := exists_word (show pos + 2 ≤ bytes.length by omega)
    exact ⟨w, hw, fetch_needsBytes hw⟩
  refine ⟨hnone, hsome, ?_⟩
  intro e herror
  by_cases hleft : (bytes.length : Int) - pos < 2
  · rw [hnone hleft] at herror
    cases herror
    rfl
  · obtain ⟨w, -, hneeds⟩ := hsome (Int.not_lt.mp hleft)
    by_cases hfits : ((2 * (1 + (table.decode w).extraWords) : Nat) : Int) ≤ bytes.length - pos
    · obtain ⟨i, hi⟩ := hneeds.succeeds_iff.mpr hfits
      rw [hi] at herror
      cases herror
    · rw [(hneeds.short (Int.not_le.mp hfits)).1] at herror
      cases herror
      rfl

/-! ## Looking around -/

/-- The place in a buffer of the given length that a position denotes: the position itself, unless
it lies before the start of the buffer, and then a place counted from the end. -/
def placeOf (length : Nat) (pos : Int) : Int :=
  if pos < 0 then pos + length else pos

theorem placeOf_of_neg {length : Nat} {pos : Int} (h : pos < 0) :
    placeOf length pos = pos + length :=
  if_pos h

theorem placeOf_of_not_neg {length : Nat} {pos : Int} (h : ¬ pos < 0) : placeOf length pos = pos :=
  if_neg h

/-- At a place of a buffer there are the bytes of a word, and they denote the number `z`. -/
def LiesAt (bytes : List UInt8) (place : Int) (z : Int) : Prop :=
  ∃ (n : Nat) (high low : UInt8), place = n ∧ bytes[n]? = some high ∧ bytes[n + 1]? = some low ∧
    z = 256 * high.toNat + low.toNat

theorem LiesAt.fits {place z : Int} (h : LiesAt bytes place z) :
    0 ≤ place ∧ place + 2 ≤ bytes.length := by
  obtain ⟨n, high, low, rfl, -, hlow, -⟩ := h
  obtain ⟨hlt, -⟩ := List.getElem?_eq_some_iff.mp hlow
  omega

/-- Where two bytes are left, the number that they denote lies, and no other one. -/
theorem liesAt_iff {n : Nat} (h : n + 2 ≤ bytes.length) {z : Int} :
    LiesAt bytes n z ↔ (bigEndian ((bytes.drop n).take 2) : Int) = z := by
  have hhigh : n < bytes.length := by omega
  have hlow : n + 1 < bytes.length := by omega
  have hvalue : (bigEndian ((bytes.drop n).take 2) : Int) =
      256 * bytes[n].toNat + bytes[n + 1].toNat := by
    rw [List.drop_eq_getElem_cons hhigh, List.drop_eq_getElem_cons hlow]
    simp only [List.take_succ_cons, List.take_zero, bigEndian, List.foldl_cons, List.foldl_nil]
    omega
  rw [hvalue]
  constructor
  · rintro ⟨m, high, low, hm, hhigh', hlow', rfl⟩
    obtain rfl : n = m := Int.ofNat_inj.mp hm
    rw [List.getElem?_eq_getElem hhigh, Option.some.injEq] at hhigh'
    rw [List.getElem?_eq_getElem hlow, Option.some.injEq] at hlow'
    rw [hhigh', hlow']
  · rintro rfl
    exact ⟨n, _, _, rfl, List.getElem?_eq_getElem hhigh, List.getElem?_eq_getElem hlow, rfl⟩

/-- What lies at the place that a position denotes is what lies at the position itself, unless
that is before the start and the buffer reaches as far back from its end. -/
theorem liesAt_placeOf_iff (bytes : List UInt8) (start : Int) :
    (∀ z, LiesAt bytes (placeOf bytes.length start) z ↔ LiesAt bytes start z) ↔
      ¬ (start + 2 ≤ 0 ∧ 0 ≤ start + bytes.length) := by
  by_cases hbefore : start < 0
  · rw [placeOf_of_neg hbefore]
    constructor
    · rintro hsame ⟨hend, hnonneg⟩
      obtain ⟨n, hn⟩ := Int.eq_ofNat_of_zero_le hnonneg
      have hlies : LiesAt bytes (n : Int) _ := (liesAt_iff (by omega)).mpr rfl
      rw [← hn] at hlies
      have hstart := ((hsame _).mp hlies).fits
      omega
    · intro hnot z
      apply iff_of_false
      · intro hlies
        have hplace := hlies.fits
        exact hnot ⟨by omega, by omega⟩
      · intro hlies
        have hstart := hlies.fits
        omega
  · rw [placeOf_of_not_neg hbefore]
    exact iff_of_true (fun _ => Iff.rfl) (by omega)

/-- Two bytes are taken from a position exactly if they lie at the place that it denotes. -/
theorem map_slice_eq_ok_iff {start : Int} (hend : start + 2 ≤ bytes.length) {z : Int} :
    (slice bytes start 2).map (fun found => (bigEndian found : Int)) = .ok z ↔
      LiesAt bytes (placeOf bytes.length start) z := by
  by_cases hbefore : start < 0
  · rw [slice, if_pos hbefore, placeOf_of_neg hbefore]
    have hfails : ∀ e : StreamError, ¬ (0 ≤ start + bytes.length ∧ start + 2 ≤ 0) →
        ((Except.error e).map (fun found => (bigEndian found : Int)) = .ok z ↔
          LiesAt bytes (start + bytes.length) z) := by
      intro e hout
      apply iff_of_false
      · rintro ⟨⟩
      · intro hlies
        have hplace := hlies.fits
        exact hout ⟨by omega, by omega⟩
    by_cases hacross : 0 < start + (2 : Nat)
    · rw [if_pos hacross]
      exact hfails _ (by omega)
    rw [if_neg hacross]
    by_cases hout : start + bytes.length < 0
    · rw [if_pos hout]
      exact hfails _ (by omega)
    rw [if_neg hout]
    obtain ⟨n, hn⟩ := Int.eq_ofNat_of_zero_le (Int.not_lt.mp hout)
    rw [hn, Int.toNat_natCast, liesAt_iff (by omega)]
    simp only [Except.map, Except.ok.injEq]
  · rw [placeOf_of_not_neg hbefore]
    obtain ⟨n, rfl⟩ := Int.eq_ofNat_of_zero_le (Int.not_lt.mp hbefore)
    rw [slice_natCast, liesAt_iff (by omega)]
    simp only [Except.map, Except.ok.injEq]

theorem peek_buffer (pos offset : Int) :
    (buffer bytes base).peek offset pos =
      if (bytes.length : Int) - (pos + offset * 2) < 2 then ⟨.error .tooShort, pos, []⟩
      else ⟨(slice bytes (pos + offset * 2) 2).map fun found => (bigEndian found : Int), pos, []⟩ :=
  rfl

/-- A look into a buffer finds what lies at the place that the position looked at denotes. -/
theorem peek_buffer_eq_ok_iff {pos offset z : Int} :
    ((buffer bytes base).peek offset pos).result = .ok z ↔
      LiesAt bytes (placeOf bytes.length (pos + offset * 2)) z := by
  rw [peek_buffer]
  generalize pos + offset * 2 = start
  by_cases hend : (bytes.length : Int) - start < 2
  · rw [if_pos hend]
    apply iff_of_false
    · rintro ⟨⟩
    · intro hlies
      have hplace := hlies.fits
      unfold placeOf at hplace
      split at hplace <;> omega
  · rw [if_neg hend]
    exact map_slice_eq_ok_iff (by omega)

/-- The first of two cells is always asked for, and no other ones than the two. -/
theorem asked_peekCells (cells : Int → Option Int) (start : Int) :
    start ∈ (peekCells cells start).2 ∧
      ∀ address ∈ (peekCells cells start).2, address = start ∨ address = start + 1 := by
  unfold peekCells
  cases cells start with
  | none => simp
  | some high => cases cells (start + 1) <;> simp

theorem peek_memory (cells : Int → Option Int) (pos offset : Int) :
    (memory cells).peek offset pos =
      if addressSpace < pos + offset * 2 + 2 then ⟨.error .tooShort, pos, []⟩
      else ⟨(peekCells cells (pos + offset * 2)).1, pos, (peekCells cells (pos + offset * 2)).2⟩ :=
  rfl

/-- A look into a memory asks for no address behind the address space, and for none before its start
exactly if it does not begin there. -/
theorem asked_peek_memory (cells : Int → Option Int) (pos offset : Int) :
    (∀ address ∈ ((memory cells).peek offset pos).asked, address < addressSpace) ∧
      ((∀ address ∈ ((memory cells).peek offset pos).asked, 0 ≤ address) ↔
        0 ≤ pos + offset * 2) := by
  rw [peek_memory]
  generalize pos + offset * 2 = start
  have hspace : (2 : Int) ≤ addressSpace := by decide
  by_cases hend : addressSpace < start + 2
  · rw [if_pos hend]
    have hnone : ∀ address : Int, ¬ address ∈ ([] : List Int) := fun _ => List.not_mem_nil
    refine ⟨fun address h => absurd h (hnone address), ?_⟩
    exact iff_of_true (fun address h => absurd h (hnone address)) (by omega)
  · rw [if_neg hend]
    obtain ⟨hstart, hmem⟩ := asked_peekCells cells start
    constructor
    · intro address h
      rcases hmem address h with rfl | rfl <;> omega
    · constructor
      · intro h
        exact h start hstart
      · intro h address hasked
        rcases hmem address hasked with rfl | rfl <;> omega

/-- **Looks before the start count from the end.**  A look into a buffer finds the word at the
place that the position looked at denotes, and fails if no word lies there.  It finds what lies at
the position itself, and nothing outside the buffer, unless the position is before the start and
the buffer reaches as far back from its end.  A look into a memory asks for no address behind the
address space, but for negative addresses whenever it begins before the start. -/
theorem peek_counts_from_end (bytes : List UInt8) (base : Int) (cells : Int → Option Int)
    (pos offset : Int) :
    (∀ z, ((buffer bytes base).peek offset pos).result = .ok z ↔
      LiesAt bytes (placeOf bytes.length (pos + offset * 2)) z) ∧
    ((∀ z, ((buffer bytes base).peek offset pos).result = .ok z ↔
        LiesAt bytes (pos + offset * 2) z) ↔
      ¬ (pos + offset * 2 + 2 ≤ 0 ∧ 0 ≤ pos + offset * 2 + bytes.length)) ∧
    (∀ address ∈ ((memory cells).peek offset pos).asked, address < addressSpace) ∧
    ((∀ address ∈ ((memory cells).peek offset pos).asked, 0 ≤ address) ↔ 0 ≤ pos + offset * 2) := by
  refine ⟨fun _ => peek_buffer_eq_ok_iff, ?_, asked_peek_memory cells pos offset⟩
  rw [← liesAt_placeOf_iff]
  exact forall_congr' fun z => by rw [peek_buffer_eq_ok_iff]

/-- **Looks outside the data.**  One word before the start of a buffer its last word is found, and
one word before the start of a memory two negative addresses are asked for. -/
theorem peek_before_start :
    ((buffer [0x97, 0x20, 0x9F, 0xA0] 0).peek (-1) 0).result = .ok 0x9FA0 ∧
      ¬ (0 ≤ (0 : Int) + -1 * 2) ∧
      ((memory fun _ => some 0xAB).peek (-1) 0).asked = [-2, -1] :=
  ⟨rfl, by decide, rfl⟩

end Source

end WordAtlas
