import OpenNtrip.Rust.Std

/-!
# Key normalization of the geocoder

`fold` of `geodb/src/fold.rs`. The letters it strips of their diacritics are a table of ranges. The
lowercase mapping of all other characters is that of the standard library, which `CharTables`
stands for.
-/

namespace OpenNtrip

/-- `char::to_lowercase`. -/
class CharTables where
  toLowercase : Char → Text

namespace Geodb

/-- The arms of `fold_non_ascii`: the first and the last character of a range, and what they map
to. -/
def foldRanges : List (Nat × Nat × String) :=
  -- Latin-1 Supplement
  [(0xC0, 0xC5, "a"), (0xE0, 0xE5, "a"), (0xC6, 0xC6, "ae"), (0xE6, 0xE6, "ae"),
    (0xC7, 0xC7, "c"), (0xE7, 0xE7, "c"), (0xC8, 0xCB, "e"), (0xE8, 0xEB, "e"),
    (0xCC, 0xCF, "i"), (0xEC, 0xEF, "i"), (0xD0, 0xD0, "d"), (0xF0, 0xF0, "d"),
    (0xD1, 0xD1, "n"), (0xF1, 0xF1, "n"), (0xD2, 0xD6, "o"), (0xF2, 0xF6, "o"),
    (0xD8, 0xD8, "o"), (0xF8, 0xF8, "o"), (0xD9, 0xDC, "u"), (0xF9, 0xFC, "u"),
    (0xDD, 0xDD, "y"), (0xFD, 0xFD, "y"), (0xFF, 0xFF, "y"), (0xDE, 0xDE, "th"),
    (0xFE, 0xFE, "th"), (0xDF, 0xDF, "ss"),
    -- Latin Extended-A
    (0x100, 0x105, "a"), (0x106, 0x10D, "c"), (0x10E, 0x111, "d"), (0x112, 0x11B, "e"),
    (0x11C, 0x123, "g"), (0x124, 0x127, "h"), (0x128, 0x131, "i"), (0x132, 0x133, "ij"),
    (0x134, 0x135, "j"), (0x136, 0x138, "k"), (0x139, 0x142, "l"), (0x143, 0x14B, "n"),
    (0x14C, 0x151, "o"), (0x152, 0x153, "oe"), (0x154, 0x159, "r"), (0x15A, 0x161, "s"),
    (0x162, 0x167, "t"), (0x168, 0x173, "u"), (0x174, 0x175, "w"), (0x176, 0x178, "y"),
    (0x179, 0x17E, "z"), (0x17F, 0x17F, "s")]

variable [CharTables]

/-- `fold_non_ascii`. -/
def foldNonAscii (c : Char) : Text :=
  match foldRanges.find? fun (first, last, _) => first ≤ c.toNat && c.toNat ≤ last with
  | some (_, _, mapped) => mapped.toList
  | none => CharTables.toLowercase c

/-- One character of `fold`. -/
def foldChar (c : Char) : Text := if c.toNat < 0x80 then [c.toLower] else foldNonAscii c

/-- `fold`. -/
def fold (input : Text) : Text := input.flatMap foldChar

end Geodb
end OpenNtrip
