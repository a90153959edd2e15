/-!
# Bytes

Byte strings and the fixed-width fields of the wire format: big-endian words, UTF-8 text and
byte strings framed by a two-byte length. A field longer than a word can count is framed with
its length modulo 65536, so its writers check the length first.
-/
namespace MqttClient

/-- A finite string of bytes. -/
abbrev Bytes := List UInt8

namespace Bytes

/-- The largest length that a two-byte length field can carry. -/
def maxFieldLength : Nat := 65535

/-- Two bytes, most significant first. -/
def ofWord (w : UInt16) : Bytes :=
  [UInt8.ofNat (w.toNat / 256), UInt8.ofNat w.toNat]

/-- Four bytes, most significant first. -/
def ofLong (v : UInt32) : Bytes :=
  [UInt8.ofNat (v.toNat / 16777216), UInt8.ofNat (v.toNat / 65536),
    UInt8.ofNat (v.toNat / 256), UInt8.ofNat v.toNat]

/-- The word that two bytes spell. -/
def word (high low : UInt8) : UInt16 :=
  UInt16.ofNat (high.toNat * 256 + low.toNat)

/-- The four-byte number that four bytes spell. -/
def long (a b c d : UInt8) : UInt32 :=
  UInt32.ofNat (((a.toNat * 256 + b.toNat) * 256 + c.toNat) * 256 + d.toNat)

@[simp] theorem length_ofWord (w : UInt16) : (ofWord w).length = 2 := rfl
@[simp] theorem length_ofLong (v : UInt32) : (ofLong v).length = 4 := rfl

/-- Reading the two bytes of a word gives the word back. -/
theorem word_ofWord (w : UInt16) :
    word (UInt8.ofNat (w.toNat / 256)) (UInt8.ofNat w.toNat) = w := by
  have := w.toNat_lt
  apply UInt16.toNat.inj
  simp only [word, UInt16.toNat_ofNat', UInt8.toNat_ofNat']
  omega

/-- Reading the four bytes of a number gives the number back. -/
theorem long_ofLong (v : UInt32) :
    long (UInt8.ofNat (v.toNat / 16777216)) (UInt8.ofNat (v.toNat / 65536))
      (UInt8.ofNat (v.toNat / 256)) (UInt8.ofNat v.toNat) = v := by
  have := v.toNat_lt
  apply UInt32.toNat.inj
  simp only [long, UInt32.toNat_ofNat', UInt8.toNat_ofNat']
  omega

/-- The two-byte length field of a byte string of `n` bytes. -/
def lengthField (n : Nat) : Bytes := ofWord (UInt16.ofNat n)

/-- A byte string after its two-byte length. -/
def framed (b : Bytes) : Bytes := lengthField b.length ++ b

@[simp] theorem length_lengthField (n : Nat) : (lengthField n).length = 2 := rfl
@[simp] theorem length_framed (b : Bytes) : (framed b).length = 2 + b.length := by
  simp [framed]

/-- The UTF-8 bytes of a text. -/
def ofText (s : String) : Bytes := s.toUTF8.data.toList

/-- The text that UTF-8 bytes spell; nothing for bytes that are no UTF-8. -/
def text? (b : Bytes) : Option String := String.fromUTF8? ⟨b.toArray⟩

/-- A text's bytes spell the text. -/
theorem text?_ofText (s : String) : text? (ofText s) = some s := by
  simp only [text?, ofText, Array.toArray_toList]
  exact dif_pos s.isValidUTF8

/-- Bytes that spell a text are that text's bytes. -/
theorem ofText_of_text? {b : Bytes} {s : String} (h : text? b = some s) : ofText s = b := by
  simp only [text?, String.fromUTF8?] at h
  split at h
  · cases h; simp [ofText, String.fromUTF8, String.toUTF8]
  · cases h

end Bytes

end MqttClient
