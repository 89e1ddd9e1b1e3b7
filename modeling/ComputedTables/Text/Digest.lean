/-!
# Digests of texts

A digest is a 64-bit number computed from a text.  Equal texts have equal digests; the engine takes
equal digests for a sign that nothing changed, which is right as long as no two of the texts it
meets collide.  Which digest is taken is up to whoever sets the engine up.
-/

namespace ComputedTables.Text

/-- A way to take digests of texts. -/
abbrev Digest := String → UInt64

end ComputedTables.Text
