import TemplateInventory.Text.Ranges
import TemplateInventory.Text.AlphanumericTable
import TemplateInventory.Text.NumberTable
/-!
# Alphanumeric characters

Letters and digits of every script. On ASCII characters the property is the
usual one, `isAlphanumeric_of_ascii`.
-/

namespace TemplateInventory.Text

/-- Letters, letter-like marks and numbers of every script. -/
def isAlphanumeric (c : Char) : Bool :=
  if c.toNat < 128 then c.isAlphanum else inRanges alphanumericRanges c.toNat

/-- Letters and letter-like marks of every script. -/
def isAlphabetic (c : Char) : Bool :=
  isAlphanumeric c && !(if c.toNat < 128 then c.isDigit else inRanges numberRanges c.toNat)

theorem isAlphanumeric_of_ascii {c : Char} (h : c.toNat < 128) :
    isAlphanumeric c = c.isAlphanum := by
  simp [isAlphanumeric, h]

end TemplateInventory.Text
