import AppleII.Text.Number

/-!
# Disk errors

Why a disk image is refused, and what is odd about one that is accepted.
-/

namespace AppleII.Disk

/-- Why a disk image or a drive number is refused. -/
inductive Error where
  | unknownFormat (fileName : String)
  | sectorImageSize (expected actual : Nat)
  | truncated (track needed actual : Nat)
  | invalidDrive (drive : Nat)
  deriving DecidableEq, Repr

/-- The text of an error. -/
def Error.message : Error → String
  | .unknownFormat name => "Unknown disk format: " ++ name
  | .sectorImageSize expected actual => s!"Sector image must be {expected} bytes, got {actual}"
  | .truncated track needed actual =>
    s!"Disk image truncated: track {track} needs {needed} bytes, image has {actual}"
  | .invalidDrive drive => s!"Invalid drive number: {drive}"

/-- What is odd about an accepted image. -/
inductive Warning where
  | checksumMismatch (stored computed : UInt32)
  deriving DecidableEq, Repr

/-- The text of a warning. -/
def Warning.message : Warning → String
  | .checksumMismatch stored computed =>
    "WOZ checksum mismatch: stored " ++ Text.upperHex 8 stored.toNat ++ ", computed " ++
      Text.upperHex 8 computed.toNat

end AppleII.Disk
