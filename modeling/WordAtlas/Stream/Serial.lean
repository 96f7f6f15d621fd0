import WordAtlas.Stream.Layout
import WordAtlas.Word

/-!
# Words as bytes

In a stream a word takes two bytes, the more significant one first.  `bigEndian` is the inverse of
this way to write a word (`bigEndian_bytes`), and also of writing several of them, when the bytes
are taken as one number whose digits to the base 65536 are the words (`bigEndian_bytesOf`).
-/

namespace WordAtlas.Word

/-- The two bytes of a word. -/
def bytes (w : Word) : List UInt8 :=
  [UInt8.ofNat (w.val / 256), UInt8.ofNat (w.val % 256)]

/-- The bytes of some words, one word after the other. -/
def bytesOf (words : List Word) : List UInt8 :=
  words.flatMap bytes

/-- The number whose digits to the base 65536 are the given words. -/
def valueOf (words : List Word) : Nat :=
  words.foldl (fun n w => 65536 * n + w.val) 0

/-- A word takes two bytes. -/
@[simp] theorem length_bytes (w : Word) : w.bytes.length = 2 :=
  rfl

/-- Every word takes two bytes. -/
@[simp] theorem length_bytesOf (words : List Word) : (bytesOf words).length = 2 * words.length := by
  induction words with
  | nil => rfl
  | cons w rest ih =>
      have hcons : bytesOf (w :: rest) = w.bytes ++ bytesOf rest := rfl
      rw [hcons, List.length_append, ih, length_bytes, List.length_cons]
      omega

/-- Reading on after the bytes of a word adds the word as one more digit. -/
theorem foldl_bytes (n : Nat) (w : Word) :
    w.bytes.foldl (fun n byte => 256 * n + byte.toNat) n = 65536 * n + w.val := by
  have := w.isLt
  have hhigh : (UInt8.ofNat (w.val / 256)).toNat = w.val / 256 := by
    rw [UInt8.toNat_ofNat']
    omega
  have hlow : (UInt8.ofNat (w.val % 256)).toNat = w.val % 256 := by
    rw [UInt8.toNat_ofNat']
    omega
  simp only [bytes, List.foldl_cons, List.foldl_nil, hhigh, hlow]
  omega

/-- The bytes of a word denote the word. -/
theorem bigEndian_bytes (w : Word) : bigEndian w.bytes = w.val := by
  rw [bigEndian, foldl_bytes]
  omega

/-- The bytes of some words denote the number whose digits are the words. -/
theorem bigEndian_bytesOf (words : List Word) : bigEndian (bytesOf words) = valueOf words := by
  have key : ∀ n, (bytesOf words).foldl (fun n byte => 256 * n + byte.toNat) n =
      words.foldl (fun n w => 65536 * n + w.val) n := by
    induction words with
    | nil => exact fun _ => rfl
    | cons w rest ih =>
        intro n
        have hcons : bytesOf (w :: rest) = w.bytes ++ bytesOf rest := rfl
        rw [hcons, List.foldl_append, foldl_bytes, ih, List.foldl_cons]
  exact key 0

end WordAtlas.Word
