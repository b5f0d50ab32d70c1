/-
White space: the characters with the Unicode property `White_Space`.

The set is closed and small, so it is listed.  The zero-width space and the byte order mark are
not in it.
-/
namespace ClipScript
namespace Text

/-- A character that separates tokens and stands for nothing itself. -/
def isBlank (c : Char) : Bool :=
  let n := c.toNat
  (9 ≤ n && n ≤ 13) || n == 0x20 || n == 0x85 || n == 0xA0 || n == 0x1680
    || (0x2000 ≤ n && n ≤ 0x200A) || n == 0x2028 || n == 0x2029 || n == 0x202F
    || n == 0x205F || n == 0x3000

end Text
end ClipScript
