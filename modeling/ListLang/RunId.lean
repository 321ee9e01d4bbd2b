import ListLang.Text.Quoted

/-! Run identifiers: sixteen bytes with a version and a variant in them, written in hexadecimal. -/

namespace ListLang.RunId

/-- Marks byte 6 with version 4 and byte 8 with the standard variant. -/
def stamp (bytes : List UInt8) : List UInt8 :=
  (bytes.modify 6 fun b => b % 16 + 0x40).modify 8 fun b => b % 64 + 0x80

def hexText (bytes : List UInt8) : String :=
  String.ofList (bytes.flatMap fun b => Text.hex 2 b.toNat)

/-- Groups of four, two, two, two and six bytes with dashes between. -/
def ofBytes (bytes : List UInt8) : String :=
  let b := stamp bytes
  String.intercalate "-" [hexText (b.take 4), hexText ((b.drop 4).take 2),
    hexText ((b.drop 6).take 2),
    hexText ((b.drop 8).take 2), hexText (b.drop 10)]

end ListLang.RunId
