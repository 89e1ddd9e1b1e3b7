/-!
# The help text

What the watcher explains about formulas and its keys.  It scrolls by lines, at most to where the
last line stands at the top.
-/

namespace ComputedTables.Help

/-- The lines of the help text. -/
def lines : List String :=
  ["TABLEMATH FORMULA REFERENCE",
   "",
   "=== BASIC CONCEPTS ===",
   "• A table cell whose text starts with = is a formula",
   "• Results replace the formula in the rendered table",
   "• A failed formula is shown unchanged",
   "• Function names are case insensitive",
   "",
   "=== ARITHMETIC ===",
   "+ - * /         Usual precedence, parentheses group",
   "=2+3*4 → 14     =(2+3)*4 → 20     =10/0 → shown unchanged",
   "",
   "=== AGGREGATES ===",
   "SUM(row)        Sum of the other numeric cells in this row",
   "SUM(col)        Sum of the other numeric cells in this column",
   "AVG(...)        Average     MIN(...) Minimum     MAX(...) Maximum",
   "SUM(col,data)   Ignore cells that are themselves formulas",
   "SUM(col,USD)    Format the result as currency",
   "Functions cannot be nested: =SUM(MAX(row)) is rejected",
   "",
   "=== CROSS-DOCUMENT REFERENCES ===",
   "NOTE(\"Budget\").total",
   "                Value published by document Budget under \"total\"",
   "                A row publishes its last cell under its first cell's",
   "                label: | **Total Cost** | 1500 | → total_cost",
   "",
   "=== EXAMPLES ===",
   "| Item  | Cost           |",
   "| ----- | -------------- |",
   "| Rent  | 1000           |",
   "| Food  | 500            |",
   "| Total | =SUM(col, USD) |   → $1,500.00",
   "",
   "=== KEYS ===",
   "j/k or ↑↓       Select document",
   "PgUp/PgDn       Scroll preview",
   "r               Recompute selected document from scratch",
   "e               Export first formula table to <name>.csv",
   "?               Show this help",
   "q               Quit",
   "",
   "=== HELP NAVIGATION ===",
   "↑↓ or j/k       Scroll help text up/down one line",
   "Page Up/Down    Scroll help text up/down 5 lines",
   "Home            Jump to top of help text",
   "Esc/?/q         Close this help window"]

/-- How many lines there are. -/
def lineCount : Nat :=
  lines.length

end ComputedTables.Help
