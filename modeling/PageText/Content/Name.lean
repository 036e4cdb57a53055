/-
PageText/Content/Name.lean

Names of a content stream: a slash and the regular bytes after it.  A hash
sign with two hexadecimal digits stands for one byte; any other hash sign
stands for itself.
-/
import PageText.Content.Byte

namespace PageText.Name

/-- The bytes of a name with its escapes resolved. -/
def unescape : List UInt8 → List UInt8
  | [] => []
  | [b] => [b]
  | [b, b₁] => [b, b₁]
  | b :: high :: low :: rest =>
    if b == Byte.hash then
      match Byte.hexValue? high, Byte.hexValue? low with
      | some h, some l => Byte.ofHalves h l :: unescape rest
      | _, _ => b :: unescape (high :: low :: rest)
    else b :: unescape (high :: low :: rest)

end PageText.Name
