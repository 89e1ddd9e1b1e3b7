import ComputedTables.Watch.Help
import ComputedTables.Watch.Watcher

/-!
# Keys

What a key does depends on whether the help is shown.  In the list every key clears the status
first.
-/

namespace ComputedTables

/-- A key, as far as the watcher tells keys apart. -/
inductive Key where
  | char (c : Char)
  | up
  | down
  | pageUp
  | pageDown
  | home
  | escape
  | enter
  | f1
  deriving DecidableEq, Repr

namespace Watcher

/-- Shows the help from its start. -/
def openHelp (w : Watcher) : Watcher :=
  { w with mode := .help, helpScroll := 0 }

/-- Goes back to the list. -/
def closeHelp (w : Watcher) : Watcher :=
  { w with mode := .normal }

def helpUp (w : Watcher) (lines : Nat) : Watcher :=
  { w with helpScroll := w.helpScroll - lines }

/-- Scrolls the help on, at most to its last line. -/
def helpDown (w : Watcher) (lines : Nat) : Watcher :=
  { w with helpScroll := min (w.helpScroll + lines) (Help.lineCount - 1) }

/-- A key in the list. -/
def pressInList (w : Watcher) (source : Source) (key : Key) : Watcher :=
  let w := { w with status := none }
  match key with
  | .up | .char 'k' => w.selectAbove
  | .down | .char 'j' => w.selectBelow
  | .pageUp => w.scrollBy (-10)
  | .pageDown => w.scrollBy 10
  | .char 'r' => w.refreshSelected source
  | .char 'e' => w.writeExport source
  | .char '?' | .f1 => w.openHelp
  | _ => w

/-- A key while the help is shown. -/
def pressInHelp (w : Watcher) (key : Key) : Watcher :=
  match key with
  | .escape | .f1 | .char '?' | .char 'q' => w.closeHelp
  | .up | .char 'k' => w.helpUp 1
  | .down | .char 'j' => w.helpDown 1
  | .pageUp => w.helpUp 5
  | .pageDown => w.helpDown 5
  | .home => { w with helpScroll := 0 }
  | _ => w

/-- Acts on a key. -/
def press (w : Watcher) (source : Source) (key : Key) : Watcher :=
  match w.mode with
  | .normal => w.pressInList source key
  | .help => w.pressInHelp key

end Watcher

end ComputedTables
