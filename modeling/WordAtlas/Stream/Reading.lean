import WordAtlas.Word

/-!
# Readings

A reading starts at a position of a stream and ends at another one, with a value or with the reason
for its failure; on the way it may ask for the contents of addresses.  All three are kept, for
failed readings too, so that it can be told where a failure left the stream and what had been asked
by then.  Readings are composed one after the other, and the first failure ends the whole.
-/

namespace WordAtlas

/-- Why nothing could be read. -/
inductive StreamError
  /-- The data end before the last byte wanted. -/
  | tooShort
  /-- There is nothing at an address. -/
  | unmapped
  /-- What is at an address is no byte. -/
  | notByte
  /-- A layout has more than one item. -/
  | severalItems
  /-- The bytes wanted begin before the start of the data and end behind it. -/
  | acrossStart (size : Nat) (offset : Int)
  /-- A position counted from the end lies before the start of the data. -/
  | beforeStart (offset : Int) (length : Nat)
  /-- A number is no instruction word. -/
  | notWord (refused : Word.OutOfRange)
deriving DecidableEq, Repr

/-- The message about a failed reading. -/
def StreamError.message : StreamError → String
  | tooShort => ""
  | unmapped => "Address out of bounds"
  | notByte => "byte must be in range(0, 256)"
  | severalItems => "Unpacking more than one item is not supported"
  | acrossStart size offset => s!"not enough data to unpack {size} bytes at offset {offset}"
  | beforeStart offset length => s!"offset {offset} out of range for {length}-byte buffer"
  | notWord refused => refused.message

/-- What became of a reading: its value or the reason for its failure, the position afterwards, and
the addresses asked for, in order. -/
structure Attempt (α : Type) where
  result : Except StreamError α
  pos : Int
  asked : List Int

/-- A reading, as a function of the position at which it starts. -/
def Reading (α : Type) : Type :=
  Int → Attempt α

namespace Reading

variable {α β : Type}

/-- Reads nothing and gives a value. -/
protected def pure (a : α) : Reading α :=
  fun pos => ⟨.ok a, pos, []⟩

/-- Reads on with what was read, unless that failed. -/
protected def bind (first : Reading α) (next : α → Reading β) : Reading β :=
  fun pos =>
    let attempt := first pos
    match attempt.result with
    | .error e => ⟨.error e, attempt.pos, attempt.asked⟩
    | .ok a =>
        let later := next a attempt.pos
        ⟨later.result, later.pos, attempt.asked ++ later.asked⟩

instance : Monad Reading where
  pure := Reading.pure
  bind := Reading.bind

/-- The position. -/
def position : Reading Int :=
  fun pos => ⟨.ok pos, pos, []⟩

/-- Goes to a position. -/
def seek (target : Int) : Reading Unit :=
  fun _ => ⟨.ok (), target, []⟩

/-- Fails without reading. -/
def fail (e : StreamError) : Reading α :=
  fun pos => ⟨.error e, pos, []⟩

/-- As many readings of one kind, one after the other. -/
def times (reading : Reading α) : Nat → Reading (List α)
  | 0 => pure []
  | count + 1 => do
      let a ← reading
      let more ← times reading count
      return a :: more

variable {reading : Reading α} {next : α → Reading β} {pos mid stop : Int} {asked more : List Int}

/-- After a reading that gave a value, the next one goes on from where it ended. -/
theorem bind_of_ok {a : α} {result : Except StreamError β}
    (h : reading pos = ⟨.ok a, mid, asked⟩) (hnext : next a mid = ⟨result, stop, more⟩) :
    (reading >>= next) pos = ⟨result, stop, asked ++ more⟩ := by
  change Reading.bind reading next pos = _
  unfold Reading.bind
  simp only [h, hnext]

/-- To ask for the position reads nothing. -/
theorem position_bind (next : Int → Reading β) (pos : Int) :
    (position >>= next) pos = next pos pos :=
  rfl

/-- After a reading that failed, nothing more is read. -/
theorem bind_of_error {e : StreamError} (h : reading pos = ⟨.error e, mid, asked⟩) :
    (reading >>= next) pos = ⟨.error e, mid, asked⟩ := by
  change Reading.bind reading next pos = _
  unfold Reading.bind
  rw [h]

/-- If a reading in two parts gave a value, both parts did. -/
theorem exists_of_bind_ok {b : β} (h : (reading >>= next) pos = ⟨.ok b, stop, asked⟩) :
    ∃ a mid first later, reading pos = ⟨.ok a, mid, first⟩ ∧
      next a mid = ⟨.ok b, stop, later⟩ := by
  cases hfirst : reading pos with
  | mk result mid first =>
      cases result with
      | error e =>
          rw [bind_of_error hfirst] at h
          cases h
      | ok a =>
          cases hlater : next a mid with
          | mk result' stop' later =>
              rw [bind_of_ok hfirst hlater] at h
              cases h
              exact ⟨a, mid, first, later, rfl, hlater⟩

end Reading

end WordAtlas
