import AesEcb.Text.Category
import AesEcb.Text.Category.Unassigned
import AesEcb.Text.DefaultIgnorable
import AesEcb.Text.GraphemeExtend

/-!
# Quoted text

A quoted text stands between double quotes.  Quote and backslash get a backslash, and tab, line
feed, carriage return and NUL are written by a letter.  Every other character that shows nothing by
itself, or is drawn onto the one before it, is written by its number in hexadecimal, and all else as
it is.
-/

namespace AesEcb.Text

/-- The hexadecimal digits of `n`, without leading zeros. -/
def hex (n : Nat) : String := String.ofList (Nat.toDigits 16 n)

/-- Whether `c` has a shape of its own; of the separators only the ordinary space counts. -/
def isPrintable (c : Char) : Bool :=
  c = ' ' || !(Category.control.contains c || Category.format.contains c ||
    Category.separator.contains c || Category.privateUse.contains c ||
    Category.unassigned.contains c || defaultIgnorable.contains c)

theorem isPrintable_of_ascii {c : Char} (h : 0x20 ≤ c.toNat) (h' : c.toNat < 0x7f) :
    isPrintable c = true := by
  have hall : ∀ n < 0x7f, 0x20 ≤ n → (n = 0x20 ||
      !(Ranges.search Category.control.rows n || Ranges.search Category.format.rows n ||
        Ranges.search Category.separator.rows n || Ranges.search Category.privateUse.rows n ||
        Ranges.search Category.unassigned.rows n ||
        Ranges.search defaultIgnorable.rows n)) = true := by decide +kernel
  have hspace : decide (c = ' ') = decide (c.toNat = 0x20) := by
    simp only [← Char.toNat_inj]; rfl
  simpa only [isPrintable, Ranges.contains, hspace] using hall c.toNat h' h

def quotedChar (c : Char) : String :=
  match c with
  | '\"' => "\\\""
  | '\\' => "\\\\"
  | '\t' => "\\t"
  | '\n' => "\\n"
  | '\r' => "\\r"
  | '\x00' => "\\0"
  | c =>
    if isCombining c || !isPrintable c then "\\u\x7b" ++ hex c.toNat ++ "\x7d"
    else c.toString

def quoted (s : String) : String :=
  "\"" ++ String.join (s.toList.map quotedChar) ++ "\""

example : quoted "a\"b\\\n" = "\"a\\\"b\\\\\\n\"" := by cbv

example : quoted "é e\u0301" = "\"é e\\u\x7b301\x7d\"" := by cbv

end AesEcb.Text
