import ComputedTables.Text.ClusterClass

/-!
# Clusters

A reader takes some runs of characters for one: a letter with its marks, a syllable, a picture put
together from others, a flag.  A text is cut into these clusters by the rules for extended grapheme
clusters.  Joining the clusters again gives the text.
-/

namespace ComputedTables.Text

/-- A run of characters that is drawn as one. -/
abbrev Cluster := List Char

/-- What has been read of a cluster, as far as it decides whether the next character belongs to
it. -/
structure ClusterState where
  /-- The class of the last character. -/
  last : ClusterClass
  /-- Whether the cluster ends with half a flag. -/
  halfFlag : Bool
  /-- Whether the cluster ends with a pictograph and extenders of it, a joiner behind them
  aside. -/
  pictured : Bool
  /-- Whether the cluster ends with a consonant and marks of it; if so, whether a linker is among
  the marks. -/
  linked : Option Bool

namespace ClusterState

/-- The state after the first character of a cluster, or after one that what is before it does not
matter to. -/
def start (c : ClusterClass) : ClusterState :=
  { last := c, halfFlag := c = .regional, pictured := c = .pictograph
    linked := if c = .consonant then some false else none }

/-- Whether pictographs with extenders are still at the end after one more mark. -/
def staysPictured (s : ClusterState) : Bool :=
  s.pictured && s.last ≠ .joiner

/-- The state after one more character. -/
def next (s : ClusterState) : ClusterClass → ClusterState
  | .regional => { start .regional with halfFlag := !s.halfFlag }
  | .nonJoiner => { start .nonJoiner with pictured := s.staysPictured }
  | .extender => { start .extender with pictured := s.staysPictured, linked := s.linked }
  | .joiner => { start .joiner with pictured := s.staysPictured, linked := s.linked }
  | .linker =>
    { start .linker with pictured := s.staysPictured, linked := s.linked.map fun _ => true }
  | c => start c

/-- Whether a character of a class belongs to the cluster, too. -/
def takes (s : ClusterState) (c : ClusterClass) : Bool :=
  match s.last, c with
  | .carriageReturn, .lineFeed => true
  | .control, _ | .carriageReturn, _ | .lineFeed, _ => false
  | _, .control | _, .carriageReturn | _, .lineFeed => false
  | .hangul _ .leading, .hangul .leading _ | .hangul _ .leading, .hangul .vowel _ => true
  | .hangul _ .vowel, .hangul .vowel _ | .hangul _ .vowel, .hangul .trailing _ => true
  | .hangul _ .trailing, .hangul .trailing _ => true
  | _, .extender | _, .nonJoiner | _, .linker | _, .joiner | _, .spacingMark => true
  | .prepended, _ => true
  | _, .consonant => s.linked = some true
  | .joiner, .pictograph => s.pictured
  | .regional, .regional => s.halfFlag
  | _, _ => false

end ClusterState

/-- The clusters of what follows, given what has been read of the first one. -/
def clustersFrom (read : Cluster) (s : ClusterState) : List Char → List Cluster
  | [] => [read]
  | c :: cs =>
    let k := clusterClass c
    if s.takes k then clustersFrom (read ++ [c]) (s.next k) cs
    else read :: clustersFrom [c] (.start k) cs

/-- The clusters of a text. -/
def clusters : List Char → List Cluster
  | [] => []
  | c :: cs => clustersFrom [c] (.start (clusterClass c)) cs

theorem flatten_clustersFrom (read : Cluster) (s : ClusterState) (cs : List Char) :
    (clustersFrom read s cs).flatten = read ++ cs := by
  induction cs generalizing read s with
  | nil => simp [clustersFrom]
  | cons c cs ih =>
    simp only [clustersFrom]
    split <;> simp [ih]

theorem flatten_clusters (cs : List Char) : (clusters cs).flatten = cs := by
  cases cs with
  | nil => rfl
  | cons c cs => exact flatten_clustersFrom ..

end ComputedTables.Text
