/-!
# Blank — white space

Source text, prompts and settings all ask which characters count as white space.  The answer is the
Unicode property `White_Space` everywhere; this file defines:

* `Text.isBlank`, membership in that property;
* `Text.allBlank`, for text that holds nothing else;
* `Text.strip`, which takes white space off both ends.
-/

namespace LazyLisp
namespace Text

/-- The characters with the Unicode property `White_Space`. -/
def isBlank (c : Char) : Bool :=
  let code := c.toNat
  (0x09 ≤ code && code ≤ 0x0D) || code == 0x20 || code == 0x85 || code == 0xA0 || code == 0x1680 ||
    (0x2000 ≤ code && code ≤ 0x200A) || code == 0x2028 || code == 0x2029 || code == 0x202F ||
    code == 0x205F || code == 0x3000

/-- Whether `text` has no character other than white space. -/
def allBlank (text : String) : Bool :=
  text.toList.all isBlank

/-- `text` without the white space at its two ends. -/
def strip (text : String) : String :=
  let kept := text.toList.dropWhile isBlank
  String.ofList (kept.reverse.dropWhile isBlank).reverse

end Text
end LazyLisp
