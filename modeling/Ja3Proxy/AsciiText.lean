import Mathlib.Data.List.DropRight

/-! ASCII text in HTTP and JSON: tokens, hexadecimal identifiers and the values of header fields.
On such text `toLowerCase`, `to_ascii_lowercase` and `Char.toLower` agree. -/
namespace AsciiText

abbrev HeaderValue := List UInt8

def tokenChar (c : Char) : Bool := c.isAlphanum || "!#$%&'*+-.^_`|~".toList.contains c

def isToken (text : String) : Bool := !text.toList.isEmpty && text.toList.all tokenChar

def hexId (size : ℕ) (text : String) : Bool :=
  text.toList.length == size && text.toList.any (· != '0') &&
    text.toList.all fun c => c.isDigit || ('a' ≤ c && c ≤ 'f')

def lower (text : String) : String := String.ofList (text.toList.map Char.toLower)
def upper (text : String) : String := String.ofList (text.toList.map Char.toUpper)

def trim (text : List Char) : List Char :=
  (text.dropWhile Char.isWhitespace).rdropWhile Char.isWhitespace

def bytes (text : String) : HeaderValue := text.toList.map fun c => UInt8.ofNat c.toNat

def visible (value : HeaderValue) : Bool := value.all fun b => (32 ≤ b && b < 127) || b == 9

def latin1 (value : HeaderValue) : String := String.ofList (value.map fun b => Char.ofNat b.toNat)

/-- `HeaderValue::to_str` accepts visible ASCII and tabs. -/
def toStr (value : HeaderValue) : Option String :=
  if visible value then some (latin1 value) else none

theorem alphanum_graphic {c : Char} (h : c.isAlphanum = true) : '!' ≤ c ∧ c ≤ '~' := by
  unfold Char.isAlphanum Char.isAlpha Char.isUpper Char.isLower Char.isDigit at h
  simp only [Bool.or_eq_true, Bool.and_eq_true, decide_eq_true_eq, ge_iff_le,
    UInt32.le_iff_toNat_le] at h
  have hbounds : 33 ≤ c.val.toNat ∧ c.val.toNat ≤ 126 := by
    rcases h with (h | h) | h
    · exact ⟨Nat.le_trans (by decide) h.1, Nat.le_trans h.2 (by decide)⟩
    · exact ⟨Nat.le_trans (by decide) h.1, Nat.le_trans h.2 (by decide)⟩
    · exact ⟨Nat.le_trans (by decide) h.1, Nat.le_trans h.2 (by decide)⟩
  exact ⟨UInt32.le_iff_toNat_le.mpr hbounds.1, UInt32.le_iff_toNat_le.mpr hbounds.2⟩

end AsciiText
