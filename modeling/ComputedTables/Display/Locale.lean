import ComputedTables.Text.Blank
import ComputedTables.Text.Word

/-!
# Locale conventions

A locale says how digits are grouped, which mark stands before the fraction, and on which side of an
amount its currency stands.  A tag that is not known stands for what its language uses, and a
language that is not known for English.
-/

namespace ComputedTables

/-- The side of an amount on which its currency symbol stands. -/
inductive Placement where
  | before
  | after
  deriving DecidableEq, Repr

/-- How a locale writes numbers. -/
structure Conventions where
  /-- What separates groups of three digits. -/
  group : Char
  /-- What stands before the fraction digits. -/
  mark : Char
  placement : Placement
  /-- What stands between the symbol and the amount. -/
  gap : List Char
  deriving DecidableEq, Repr

/-- The space at which no line breaks. -/
def noBreakSpace : Char := '\u00a0'

namespace Conventions

def english : Conventions := ⟨',', '.', .before, []⟩

def swiss : Conventions := ⟨'’', '.', .before, [noBreakSpace]⟩

/-- The conventions of German, Spanish and Italian. -/
def german : Conventions := ⟨'.', ',', .after, [noBreakSpace]⟩

/-- The conventions of Dutch and Portuguese. -/
def dutch : Conventions := ⟨'.', ',', .before, [noBreakSpace]⟩

/-- French groups digits with a narrow space at which no line breaks. -/
def french : Conventions := ⟨'\u202f', ',', .after, [noBreakSpace]⟩

/-- The tags with conventions of their own. -/
def tags : List (String × Conventions) :=
  [("en-us", english), ("en-gb", english), ("en-ca", english), ("en-au", english),
   ("ja-jp", english), ("zh-cn", english), ("de-ch", swiss),
   ("de-de", german), ("de-at", german), ("es-es", german), ("it-it", german),
   ("nl-nl", dutch), ("pt-br", dutch), ("fr-fr", french), ("fr-ca", french)]

/-- The languages with conventions of their own. -/
def languages : List (String × Conventions) :=
  [("de", german), ("es", german), ("it", german), ("fr", french), ("nl", dutch), ("pt", dutch)]

/-- The conventions for a tag: blanks around it, the case of its letters and the choice between
underscores and hyphens do not matter. -/
def ofTag (tag : String) : Conventions :=
  let cs := Text.lowercase ((Text.trim tag.toList).map fun c => if c = '_' then '-' else c)
  let language := cs.takeWhile (· != '-')
  (tags.lookup (String.ofList cs)).getD ((languages.lookup (String.ofList language)).getD english)

end Conventions

end ComputedTables
