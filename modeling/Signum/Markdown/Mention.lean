import Signum.Text.Cluster
import Signum.Text.Letter
/- Names of variables mentioned in running text.

   A name is read cluster by cluster, so that a combining mark stays with its
   letter. The first code point of a cluster decides: a letter or an underscore
   is part of a name, and so is a decimal digit that does not come first. -/
namespace Signum.Markdown.Mention

/-- Whether a cluster can be part of a name; `first` for its first cluster. -/
def isNamePart (first : Bool) (cluster : Bytes) : Bool :=
  let c := (CodePoint.decode cluster).1
  c = 95 || CodePoint.isLetter c || (!first && CodePoint.isDecimal c)

/-- The length of the name made by the first of the clusters. -/
def lengthOf (first : Bool) : List Bytes → Nat
  | [] => 0
  | c :: rest => if isNamePart first c then c.length + lengthOf false rest else 0

/-- The length in bytes of the name at the start of a text. -/
def nameLength (text : Bytes) : Nat := lengthOf true (Cluster.clusters text)

end Signum.Markdown.Mention
