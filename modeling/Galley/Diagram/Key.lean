import Galley.Diagram
import Galley.Sha256

/-!
The names of cached pictures. What a picture depends on is its source, its preamble and its format;
the scale is applied where the picture is placed.

* `Diagram.keyOctets`: what is digested;
* `Diagram.key`, `Diagram.entryName`: the digest, and the name of the cache entry.
-/

namespace Galley.Diagram

/-- The octets in front of the preamble. -/
def preambleMark : Octets := 0 :: (utf8 "preamble".toList ++ [0])

/-- The octets in front of the format. -/
def formatMark : Octets := 0 :: (utf8 "format".toList ++ [0])

/-- What a picture depends on, as octets. -/
def keyOctets (d : Diagram) : Octets :=
  utf8 d.source ++
    (match d.options.preamble with
      | some preamble => preambleMark ++ utf8 preamble
      | none => []) ++
    formatMark ++ utf8 (d.options.format.getD [])

/-- The digest of what a picture depends on. -/
def key (d : Diagram) : Text := digestText d.keyOctets

/-- The name of the cache entry of a diagram. -/
def entryName (d : Diagram) : Text := d.key ++ '.' :: d.extension

end Galley.Diagram
