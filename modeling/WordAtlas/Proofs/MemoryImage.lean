import WordAtlas.Proofs.FetchedBytes

/-!
# A buffer and its image in memory

A memory is an *image* of a buffer when it holds the bytes of the buffer from its base on, within
the address space, and nothing anywhere else.  The two check their bounds differently: a buffer
counts the bytes that are left, a memory compares an address with the end of the address space and
then finds out cell by cell what is there.  All the same they stay in step.

Two attempts *mirror* each other when they end at the same address, at or behind the base, and give
the same value or fail for corresponding reasons.  Attempts that mirror each other can be continued
(`Attempt.Mirrors.bind`), also when they fail half way, and every single step mirrors its
counterpart (`Source.IsImage.perform_mirrors`).  By induction on the steps, which start again at the
same address each time, whole runs do; this is `Source.memory_mirrors_buffer`.
-/

namespace WordAtlas

/-- Why one step fails on a buffer and on its image.  A buffer is too short where the memory ends or
has nothing to read; `several` says whether the step may refuse a layout of several items. -/
inductive MirroredError (several : Prop) : StreamError → StreamError → Prop
  | bothShort : MirroredError several .tooShort .tooShort
  | unmapped : MirroredError several .tooShort .unmapped
  | bothSeveral (h : several) : MirroredError several .severalItems .severalItems

/-- The results of one step on a buffer and on its image. -/
inductive MirroredResult {α : Type} (several : Prop) :
    Except StreamError α → Except StreamError α → Prop
  | value (a : α) : MirroredResult several (.ok a) (.ok a)
  | failure {e e' : StreamError} (h : MirroredError several e e') :
      MirroredResult several (.error e) (.error e')

/-- Two attempts, on a buffer and on a memory, that ended at the same address with corresponding
results. -/
structure Attempt.Mirrors {α : Type} (base : Int) (several : Prop) (first second : Attempt α) :
    Prop where
  pos_nonneg : 0 ≤ first.pos
  address : second.pos = base + first.pos
  result : MirroredResult several first.result second.result

/-- Two readings, of a buffer and of a memory, that mirror each other from everywhere at or behind
the base. -/
def Reading.Mirrors {α : Type} (base : Int) (several : Prop) (reading other : Reading α) : Prop :=
  ∀ pos : Nat, (reading pos).Mirrors base several (other (base + pos))

section Composition

variable {α β : Type} {base : Int} {several : Prop}

/-- If the first part fails, it fails on both sides, and nothing more is read. -/
theorem Attempt.Mirrors.bind {reading other : Reading α} {next next' : α → Reading β}
    {place place' : Int} (h : (reading place).Mirrors base several (other place'))
    (hnext : ∀ a, (reading place).result = .ok a →
      Reading.Mirrors base several (next a) (next' a)) :
    ((reading >>= next) place).Mirrors base several ((other >>= next') place') := by
  cases hfirst : reading place with
  | mk result stop asked =>
      cases hsecond : other place' with
      | mk result' stop' asked' =>
          rw [hfirst, hsecond] at h
          obtain ⟨hstop, haddress, hresult⟩ := h
          cases hresult with
          | value a =>
              obtain ⟨mid, hmid⟩ := Int.eq_ofNat_of_zero_le hstop
              have hok : (reading place).result = .ok a := by rw [hfirst]
              have hlater := hnext a hok mid
              change stop = mid at hmid
              change stop' = base + stop at haddress
              subst hmid
              subst haddress
              rw [Reading.bind_of_ok hfirst rfl, Reading.bind_of_ok hsecond rfl]
              exact ⟨hlater.pos_nonneg, hlater.address, hlater.result⟩
          | failure herror =>
              rw [Reading.bind_of_error hfirst, Reading.bind_of_error hsecond]
              exact ⟨hstop, haddress, .failure herror⟩

/-- Readings that find the same without reading mirror each other. -/
theorem Reading.Mirrors.pure (a : α) :
    Mirrors base several (Pure.pure a : Reading α) (Pure.pure a : Reading α) :=
  fun pos => ⟨Int.natCast_nonneg pos, rfl, .value a⟩

/-- By induction on the count, repetitions of readings that mirror each other do so. -/
theorem Reading.Mirrors.times {reading other : Reading α} (h : Mirrors base several reading other)
    (count : Nat) : Mirrors base several (reading.times count) (other.times count) := by
  induction count with
  | zero => exact .pure []
  | succ count ih =>
      intro pos
      refine (h pos).bind fun a _ mid => ?_
      exact (ih mid).bind fun more _ => .pure (a :: more)

end Composition

/-! ## The room that a layout takes -/

/-- An integer takes at least one byte. -/
theorem PackedInteger.size_pos (item : PackedInteger) : 0 < item.size := by
  unfold size
  cases item.width <;> decide

namespace Layout

/-- Behind an item the offset is greater, whatever padding there is in front of it. -/
theorem lt_alignedEnd (offset : Nat) (item : PackedInteger) : offset < alignedEnd offset item := by
  unfold alignedEnd PackedInteger.size
  cases item.width <;> simp only [Width.bytes] <;> omega

/-- At the beginning of a layout there is no padding. -/
theorem alignedEnd_zero (item : PackedInteger) : alignedEnd 0 item = item.size := by
  unfold alignedEnd PackedInteger.size
  cases item.width <;> rfl

/-- A fold that moves an offset on never ends before the place where it started. -/
theorem le_foldl {advance : Nat → PackedInteger → Nat}
    (hadvance : ∀ offset item, offset < advance offset item) (items : List PackedInteger)
    (offset : Nat) : offset ≤ items.foldl advance offset := by
  induction items generalizing offset with
  | nil => exact Nat.le_refl offset
  | cons item rest ih => exact Nat.le_trans (Nat.le_of_lt (hadvance offset item)) (ih _)

/-- A layout takes at least one byte. -/
theorem span_pos (layout : Layout) : 0 < layout.span := by
  have hpacked : ∀ (offset : Nat) (item : PackedInteger), offset < offset + item.size := by
    intro offset item
    have := item.size_pos
    omega
  unfold span
  cases layout.order with
  | some order => exact Nat.lt_of_lt_of_le (hpacked 0 layout.head) (le_foldl hpacked layout.rest _)
  | none =>
      exact Nat.lt_of_lt_of_le (lt_alignedEnd 0 layout.head) (le_foldl lt_alignedEnd layout.rest _)

/-- A single item has no gaps. -/
theorem span_eq_packedSize {layout : Layout} (h : layout.rest = []) :
    layout.span = layout.packedSize := by
  unfold span
  cases layout.order with
  | some order => rfl
  | none =>
      unfold packedSize items
      rw [h, List.foldl_cons, List.foldl_cons, List.foldl_nil, List.foldl_nil, alignedEnd_zero,
        Nat.zero_add]

end Layout

namespace Source

/-! ## Steps on a buffer and on its image -/

/-- The step of a memory that a step of a buffer stands for: addresses take the place of
positions. -/
def Step.moved (base : Int) : Step → Step
  | seek target => seek (base + target)
  | step => step

/-- From the position `pos` a step goes and looks nowhere before the start of the buffer. -/
def Step.StaysBehindStart (pos : Int) : Step → Prop
  | peek offset => 0 ≤ pos + offset * 2
  | seek target => 0 ≤ target
  | _ => True

/-- Whether a step unpacks a layout of more than one item. -/
def Step.UnpacksSeveral : Step → Prop
  | unpack layout => layout.rest ≠ []
  | _ => False

/-- No step of a run goes or looks before the start of the buffer. -/
def StayBehindStart (source : Source) (pos : Int) : List (Table × Step) → Prop
  | [] => True
  | (table, step) :: rest =>
      step.StaysBehindStart pos ∧
        source.StayBehindStart (source.perform table step pos).pos rest

/-! ## Cells with and without bytes -/

/-- There is a byte at an address. -/
def HoldsByte (cells : Int → Option Int) (address : Int) : Prop :=
  ∃ z, cells address = some z ∧ 0 ≤ z ∧ z < 256

/-- The error of an address at which there is no byte. -/
inductive LacksByte (cells : Int → Option Int) (address : Int) : StreamError → Prop
  | nothing (h : cells address = none) : LacksByte cells address .unmapped
  | other {z : Int} (h : cells address = some z) (hz : ¬ (0 ≤ z ∧ z < 256)) :
      LacksByte cells address .notByte

/-- A byte is taken, and the next address is asked for. -/
theorem cellBytes_of_holdsByte {cells : Int → Option Int} {start : Int} {n : Nat}
    (h : cells start = some (n : Int)) (hn : n < 256) (count : Nat) :
    cellBytes cells start (count + 1) =
      ((cellBytes cells (start + 1) count).1.map (UInt8.ofNat n :: ·),
        start :: (cellBytes cells (start + 1) count).2) := by
  have hbyte : 0 ≤ (n : Int) ∧ (n : Int) < 256 := by omega
  rw [cellBytes]
  simp only [h, hbyte, and_self, if_true, Int.toNat_natCast]

/-- Where there is no byte, no further address is asked for. -/
theorem cellBytes_of_lacksByte {cells : Int → Option Int} {start : Int} {e : StreamError}
    (h : LacksByte cells start e) (count : Nat) :
    cellBytes cells start (count + 1) = (.error e, [start]) := by
  rw [cellBytes]
  cases h with
  | nothing h => simp only [h]
  | other h hz => simp only [h, if_neg hz]

/-- A cell with a byte is the first of what is found, and the others follow. -/
theorem cellBytes_of_byte {cells : Int → Option Int} {start : Int} {byte : UInt8}
    (h : cells start = some (byte.toNat : Int)) (count : Nat) :
    (cellBytes cells start (count + 1)).1 =
      (cellBytes cells (start + 1) count).1.map (byte :: ·) := by
  rw [cellBytes_of_holdsByte h byte.toNat_lt, UInt8.ofNat_toNat]

/-- At a cell with nothing in it nothing is found. -/
theorem cellBytes_of_none {cells : Int → Option Int} {start : Int} (h : cells start = none)
    (count : Nat) : (cellBytes cells start (count + 1)).1 = .error .unmapped := by
  rw [cellBytes_of_lacksByte (.nothing h)]

/-! ## Cells of an image -/

/-- A memory that holds the bytes of a buffer from the address `base` on, and nothing anywhere
else. -/
structure IsImage (cells : Int → Option Int) (bytes : List UInt8) (base : Int) : Prop where
  fits : base + (bytes.length : Int) ≤ addressSpace
  inside : ∀ (k : Nat) (byte : UInt8), bytes[k]? = some byte →
    cells (base + (k : Int)) = some (byte.toNat : Int)
  outside : ∀ address, address < base ∨ base + (bytes.length : Int) ≤ address →
    cells address = none

/-- The image of a buffer. -/
def image (bytes : List UInt8) (base : Int) (address : Int) : Option Int :=
  if address < base then none
  else (bytes[(address - base).toNat]?).map fun byte => (byte.toNat : Int)

/-- A buffer that ends within the address space has an image. -/
theorem isImage_image {bytes : List UInt8} {base : Int}
    (h : base + (bytes.length : Int) ≤ addressSpace) : IsImage (image bytes base) bytes base where
  fits := h
  inside := by
    intro k byte hbyte
    have hoffset : (base + (k : Int) - base).toNat = k := by omega
    rw [image, if_neg (by omega), hoffset, hbyte]
    rfl
  outside := by
    intro address houtside
    unfold image
    by_cases hbefore : address < base
    · rw [if_pos hbefore]
    · have hbehind : bytes.length ≤ (address - base).toNat := by omega
      rw [if_neg hbefore, List.getElem?_eq_none hbehind]
      rfl

/-- Where no bits overlap, joining adds. -/
theorem either_mul_two_pow (high : Nat) {width low : Nat} (h : low < 2 ^ width) :
    Bits.either ((high * 2 ^ width : Nat) : Int) (low : Int) =
      ((high * 2 ^ width + low : Nat) : Int) := by
  have hor : high * 2 ^ width ||| low = high * 2 ^ width + low := by
    rw [Nat.mul_comm, Nat.two_pow_add_eq_or_of_lt h]
  exact congrArg Int.ofNat hor

/-- Two bytes joined bit by bit are the number that they denote. -/
theorem either_bytes (high low : UInt8) :
    Bits.either ((high.toNat : Int) * 256) (low.toNat : Int) = (bigEndian [high, low] : Int) := by
  have hadd := either_mul_two_pow high.toNat (show low.toNat < 2 ^ 8 from low.toNat_lt)
  have hdigits : high.toNat * 2 ^ 8 + low.toNat = bigEndian [high, low] := by
    simp only [bigEndian, List.foldl_cons, List.foldl_nil]
    omega
  rw [hdigits] at hadd
  exact hadd

/-- If the bytes of a layout are not to be had, unpacking fails for the same reason and stays where
it is. -/
theorem unpack_of_error {source : Source} {layout : Layout} {place : Int} {e : StreamError}
    (h : (source.bytesAt layout place).1 = .error e) :
    ∃ asked, source.unpack layout place = ⟨.error e, place, asked⟩ := by
  cases hbytes : source.bytesAt layout place with
  | mk result asked =>
      rw [hbytes] at h
      change result = .error e at h
      subst h
      refine ⟨asked, ?_⟩
      unfold unpack
      rw [hbytes]

/-- If they are to be had, the position is behind them, and only a single item has a value. -/
theorem unpack_of_ok {source : Source} {layout : Layout} {place : Int} {found : List UInt8}
    (h : (source.bytesAt layout place).1 = .ok found) :
    ∃ asked, source.unpack layout place =
      if layout.rest.isEmpty then
        ⟨.ok (layout.head.value layout.byteOrder found), place + layout.span, asked⟩
      else ⟨.error .severalItems, place + layout.span, asked⟩ := by
  cases hbytes : source.bytesAt layout place with
  | mk result asked =>
      rw [hbytes] at h
      change result = .ok found at h
      subst h
      refine ⟨asked, ?_⟩
      unfold unpack
      rw [hbytes]

namespace IsImage

variable {cells : Int → Option Int} {bytes : List UInt8} {base : Int} {several : Prop}

/-- The cell of a position within the buffer holds its byte. -/
theorem cell (himage : IsImage cells bytes base) {pos : Nat} (h : pos < bytes.length) :
    cells (base + (pos : Int)) = some (bytes[pos].toNat : Int) :=
  himage.inside pos bytes[pos] (List.getElem?_eq_getElem h)

/-- The cells of the positions behind the end hold nothing. -/
theorem no_cell (himage : IsImage cells bytes base) {pos : Nat} (h : bytes.length ≤ pos) :
    cells (base + (pos : Int)) = none :=
  himage.outside _ (Or.inr (by omega))

/-- Where as many bytes are left in the buffer, the cells hold them. -/
theorem cellBytes_of_fits (himage : IsImage cells bytes base) {pos count : Nat}
    (h : pos + count ≤ bytes.length) :
    (cellBytes cells (base + (pos : Int)) count).1 = .ok ((bytes.drop pos).take count) := by
  induction count generalizing pos with
  | zero => rfl
  | succ count ih =>
      have hpos : pos < bytes.length := by omega
      have hrest := @ih (pos + 1) (by omega)
      have hnext : base + ((pos + 1 : Nat) : Int) = base + (pos : Int) + 1 := by omega
      rw [hnext] at hrest
      rw [cellBytes_of_byte (himage.cell hpos), hrest, List.drop_eq_getElem_cons hpos,
        List.take_succ_cons]
      rfl

/-- Where a byte is missing in the buffer, there is a cell with nothing. -/
theorem cellBytes_of_short (himage : IsImage cells bytes base) {pos count : Nat}
    (hcount : 0 < count) (h : bytes.length < pos + count) :
    (cellBytes cells (base + (pos : Int)) count).1 = .error .unmapped := by
  induction count generalizing pos with
  | zero => omega
  | succ count ih =>
      by_cases hpos : pos < bytes.length
      · have hrest := @ih (pos + 1) (by omega) (by omega)
        have hnext : base + ((pos + 1 : Nat) : Int) = base + (pos : Int) + 1 := by omega
        rw [hnext] at hrest
        rw [cellBytes_of_byte (himage.cell hpos), hrest]
        rfl
      · exact cellBytes_of_none (himage.no_cell (Nat.le_of_not_lt hpos)) count

/-- Where a word of the buffer lies, looking at the cells finds it. -/
theorem peekCells_of_fits (himage : IsImage cells bytes base) {pos : Nat}
    (h : pos + 2 ≤ bytes.length) :
    (peekCells cells (base + (pos : Int))).1 =
      .ok (bigEndian ((bytes.drop pos).take 2) : Int) := by
  have hpos : pos < bytes.length := by omega
  have hnext : pos + 1 < bytes.length := by omega
  have hlow := himage.cell hnext
  rw [Int.natCast_add, ← Int.add_assoc, Int.natCast_one] at hlow
  rw [peekCells, himage.cell hpos]
  simp only [hlow]
  rw [either_bytes, List.drop_eq_getElem_cons hpos, List.drop_eq_getElem_cons hnext]
  rfl

/-- Where no whole word of the buffer lies, looking at the cells finds a cell with nothing in it. -/
theorem peekCells_of_short (himage : IsImage cells bytes base) {pos : Nat}
    (h : bytes.length < pos + 2) : (peekCells cells (base + (pos : Int))).1 = .error .unmapped := by
  by_cases hpos : pos < bytes.length
  · have hlow := @no_cell cells bytes base himage (pos + 1) (by omega)
    rw [Int.natCast_add, ← Int.add_assoc, Int.natCast_one] at hlow
    rw [peekCells, himage.cell hpos]
    simp only [hlow]
  · rw [peekCells, himage.no_cell (Nat.le_of_not_lt hpos)]

/-! ## Single steps -/

/-- Where bytes of a layout are missing, the memory ends or has a cell with nothing. -/
theorem bytesAt_of_short (himage : IsImage cells bytes base) {layout : Layout} {pos : Nat}
    (h : bytes.length < pos + layout.span) :
    ∃ e, ((memory cells).bytesAt layout (base + pos)).1 = .error e ∧
      MirroredError several .tooShort e := by
  by_cases hspace : addressSpace < base + (pos : Int) + (layout.span : Int)
  · refine ⟨.tooShort, ?_, .bothShort⟩
    rw [bytesAt, if_pos hspace]
  · refine ⟨.unmapped, ?_, .unmapped⟩
    rw [bytesAt, if_neg hspace]
    exact himage.cellBytes_of_short layout.span_pos h

/-- Where the bytes of a layout lie in the buffer, the memory gives the same bytes. -/
theorem bytesAt_of_fits (himage : IsImage cells bytes base) {layout : Layout} {pos : Nat}
    (h : pos + layout.span ≤ bytes.length) :
    ((memory cells).bytesAt layout (base + pos)).1 = .ok ((bytes.drop pos).take layout.span) := by
  have hfits := himage.fits
  rw [bytesAt, if_neg (by omega)]
  exact himage.cellBytes_of_fits h

/-- Unpacking from a memory mirrors unpacking from the buffer. -/
theorem unpack_mirrors (himage : IsImage cells bytes base) {layout : Layout}
    (hseveral : layout.rest ≠ [] → several) :
    Reading.Mirrors base several ((buffer bytes base).unpack layout)
      ((memory cells).unpack layout) := by
  intro pos
  by_cases hshort : bytes.length < pos + layout.span
  · have hbuffer : ((buffer bytes base).bytesAt layout pos).1 = .error .tooShort := by
      rw [bytesAt_buffer, if_pos hshort]
    obtain ⟨asked, hfirst⟩ := unpack_of_error hbuffer
    obtain ⟨e, hmemory, herror⟩ := himage.bytesAt_of_short hshort
    obtain ⟨asked', hsecond⟩ := unpack_of_error hmemory
    rw [hfirst, hsecond]
    exact ⟨Int.natCast_nonneg pos, rfl, .failure herror⟩
  · have hfits := Nat.le_of_not_lt hshort
    have hbuffer : ((buffer bytes base).bytesAt layout pos).1 =
        .ok ((bytes.drop pos).take layout.packedSize) := by
      rw [bytesAt_buffer, if_neg hshort]
    obtain ⟨asked, hfirst⟩ := unpack_of_ok hbuffer
    obtain ⟨asked', hsecond⟩ := unpack_of_ok (himage.bytesAt_of_fits hfits)
    have hstop : 0 ≤ (pos : Int) + (layout.span : Int) := by omega
    have haddress : base + (pos : Int) + (layout.span : Int) =
        base + ((pos : Int) + (layout.span : Int)) := Int.add_assoc _ _ _
    rw [hfirst, hsecond]
    by_cases hrest : layout.rest = []
    · have hsingle : layout.rest.isEmpty = true := List.isEmpty_iff.mpr hrest
      rw [if_pos hsingle, if_pos hsingle, ← Layout.span_eq_packedSize hrest]
      exact ⟨hstop, haddress, .value _⟩
    · have hmore : ¬ layout.rest.isEmpty = true := fun h => hrest (List.isEmpty_iff.mp h)
      rw [if_neg hmore, if_neg hmore]
      exact ⟨hstop, haddress, .failure (.bothSeveral (hseveral hrest))⟩

/-- Reading a word from a memory mirrors reading it from the buffer. -/
theorem readWord_mirrors (himage : IsImage cells bytes base) :
    Reading.Mirrors base several (buffer bytes base).readWord (memory cells).readWord :=
  himage.unpack_mirrors fun hrest => absurd rfl hrest

/-- A word that is not before the start of the buffer is seen alike from the position. -/
theorem peek_mirrors (himage : IsImage cells bytes base) {pos : Nat} {offset : Int}
    (h : 0 ≤ (pos : Int) + offset * 2) :
    ((buffer bytes base).peek offset pos).Mirrors base several
      ((memory cells).peek offset (base + pos)) := by
  obtain ⟨target, htarget⟩ := Int.eq_ofNat_of_zero_le h
  have hstart : base + (pos : Int) + offset * 2 = base + (target : Int) := by omega
  have hfits := himage.fits
  unfold peek
  simp only [htarget, hstart, slice_natCast]
  by_cases hshort : bytes.length < target + 2
  · rw [if_pos (by omega), himage.peekCells_of_short hshort]
    by_cases hspace : addressSpace < base + (target : Int) + 2
    · rw [if_pos hspace]
      exact ⟨Int.natCast_nonneg pos, rfl, .failure .bothShort⟩
    · rw [if_neg hspace]
      exact ⟨Int.natCast_nonneg pos, rfl, .failure .unmapped⟩
  · rw [if_neg (by omega), if_neg (by omega),
      himage.peekCells_of_fits (Nat.le_of_not_lt hshort)]
    exact ⟨Int.natCast_nonneg pos, rfl, .value _⟩

/-- What is read from a buffer as a word is one, so it can be decoded. -/
theorem exists_word_of_readWord {place : Nat} {z : Int}
    (h : ((buffer bytes base).readWord place).result = .ok z) : ∃ w : Word, z = w.val := by
  by_cases hshort : bytes.length < place + 2
  · rw [readWord_of_short hshort] at h
    cases h
  · obtain ⟨w, hw⟩ := exists_word (Nat.le_of_not_lt hshort)
    rw [readWord_of_lies hw] at h
    cases h
    exact ⟨w, rfl⟩

/-- Decoding the same word goes alike on both sides. -/
theorem decodeRead_mirrors (table : Table) (w : Word) :
    Reading.Mirrors base several (decodeRead table w.val) (decodeRead table w.val) := by
  intro pos
  rw [decodeRead_val, decodeRead_val]
  exact ⟨Int.natCast_nonneg pos, rfl, .value _⟩

/-- A fetch that fails half way does so at the same word. -/
theorem fetch_mirrors (himage : IsImage cells bytes base) (table : Table) :
    Reading.Mirrors base several ((buffer bytes base).fetch table)
      ((memory cells).fetch table) := by
  intro pos
  have haddress : (memory cells).address (base + pos) = (buffer bytes base).address pos := rfl
  unfold fetch
  rw [Reading.position_bind, Reading.position_bind, haddress]
  refine (himage.readWord_mirrors pos).bind fun z hz => ?_
  obtain ⟨w, rfl⟩ := exists_word_of_readWord hz
  intro start
  refine (decodeRead_mirrors table w start).bind fun d _ => ?_
  intro start
  refine (himage.readWord_mirrors.times d.xCount.val start).bind fun xWords _ => ?_
  intro start
  refine (himage.readWord_mirrors.times d.yCount.val start).bind fun yWords _ => ?_
  exact .pure _

/-- A step mirrors its counterpart. -/
theorem perform_mirrors (himage : IsImage cells bytes base) (table : Table) {step : Step} {pos : Nat}
    (h : step.StaysBehindStart pos) :
    ((buffer bytes base).perform table step pos).Mirrors base step.UnpacksSeveral
      ((memory cells).perform table (step.moved base) (base + pos)) := by
  cases step with
  | peek offset => exact (himage.peek_mirrors h).bind fun word _ => .pure (Outcome.number word)
  | read => exact (himage.readWord_mirrors pos).bind fun word _ => .pure (Outcome.number word)
  | seek target => exact ⟨h, rfl, .value Outcome.nothing⟩
  | fetch =>
      exact (himage.fetch_mirrors table pos).bind fun i _ => .pure (Outcome.instruction i)
  | unpack layout =>
      exact (himage.unpack_mirrors id pos).bind fun number _ => .pure (Outcome.number number)

end IsImage

/-! ## Runs -/

/-- **A buffer and its image stay in step.**  After every step, failed ones included, both stand at
the same address, with the same value or with corresponding errors. -/
theorem memory_mirrors_buffer {cells : Int → Option Int} {bytes : List UInt8} {base : Int}
    (himage : IsImage cells bytes base) {pos : Int} (hpos : 0 ≤ pos) {steps : List (Table × Step)}
    (hsteps : (buffer bytes base).StayBehindStart pos steps) {k : Nat} {table : Table} {step : Step}
    (hk : steps[k]? = some (table, step)) :
    ∃ first second, ((buffer bytes base).runUnder pos steps)[k]? = some first ∧
      ((memory cells).runUnder (base + pos)
        (steps.map fun (table, step) => (table, step.moved base)))[k]? = some second ∧
      first.Mirrors base step.UnpacksSeveral second := by
  induction steps generalizing pos k with
  | nil => cases hk
  | cons entry rest ih =>
      obtain ⟨here, now⟩ := entry
      obtain ⟨hstep, hrest⟩ := hsteps
      obtain ⟨start, rfl⟩ := Int.eq_ofNat_of_zero_le hpos
      have hmirrors := himage.perform_mirrors here hstep
      cases k with
      | zero =>
          cases hk
          exact ⟨_, _, rfl, rfl, hmirrors⟩
      | succ k =>
          -- Both runs go on from one address, whether the step failed or not.
          rw [List.map_cons, runUnder, runUnder, List.getElem?_cons_succ, List.getElem?_cons_succ,
            hmirrors.address]
          exact ih hmirrors.pos_nonneg hrest hk

open Catalogs Table

/-- Looking, going and fetching, then one read too many. -/
def mixedSteps (table : Table) : List (Table × Step) :=
  [(table, .peek 1), (table, .seek 5), (table, .fetch), (table, .read)]

/-- The fetch in the middle of a run mirrors its counterpart. -/
theorem memory_mirrors_pairBytes :
    ∃ table, build pairCatalogs .empty = .ok table ∧
      IsImage (image pairBytes 0x100) pairBytes 0x100 ∧ (0 : Int) ≤ 1 ∧
      (buffer pairBytes 0x100).StayBehindStart 1 (mixedSteps table) ∧
      (mixedSteps table)[2]? = some (table, .fetch) ∧
      ∃ first second, ((buffer pairBytes 0x100).runUnder 1 (mixedSteps table))[2]? = some first ∧
        ((memory (image pairBytes 0x100)).runUnder (0x100 + 1)
          ((mixedSteps table).map fun (table, step) => (table, step.moved 0x100)))[2]? =
            some second ∧
        first.Mirrors 0x100 False second := by
  obtain ⟨table, hbuild, -, -⟩ :=
    exists_table validate_pairCatalogs (length_applied_pairCatalogs .empty)
  have himage : IsImage (image pairBytes 0x100) pairBytes 0x100 := isImage_image (by decide)
  have hpeek : (0 : Int) ≤ 1 + 1 * 2 := by decide
  have hseek : (0 : Int) ≤ 5 := by decide
  have hsteps : (buffer pairBytes 0x100).StayBehindStart 1 (mixedSteps table) :=
    ⟨hpeek, hseek, trivial, trivial, trivial⟩
  have hfetch : (mixedSteps table)[2]? = some (table, .fetch) := rfl
  exact ⟨table, hbuild, himage, by decide, hsteps, hfetch,
    memory_mirrors_buffer himage (by decide) hsteps hfetch⟩

end Source

end WordAtlas
