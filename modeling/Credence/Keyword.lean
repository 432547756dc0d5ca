/-! # Reserved names of a document

Names that begin with an at sign say something about a node or a value; all others are names of
properties.
-/

namespace Credence.Keyword

/-- How names are to be understood; carried along and not looked into. -/
def context : String := "@context"

def members : String := "@graph"

def id : String := "@id"

def type : String := "@type"

def value : String := "@value"

def confidence : String := "@confidence"

def source : String := "@source"

def extractedAt : String := "@extractedAt"

def method : String := "@method"

def isKeyword (name : String) : Bool := name.toList.head? == some '@'

end Credence.Keyword
