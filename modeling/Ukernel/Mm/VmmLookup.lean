import Ukernel.Machine.System
import Ukernel.Mm.VmmLife

/-!
# The two lookups of an address space

`vmm_lookup_region` walks over all regions and `vmm_vcb_va_to_pa` searches the tree with
`vmm_rbtree_key_cmp`, an interval test over a tree that is ordered by start addresses. Over
disjoint regions both look at the same region. The exception is the address 0: the test takes a
null key for a missing one and answers -1 at every node, so that the search leaves the tree on the
left even if the first region starts at 0.

## Main definitions

* `regionSystem`: runs of `rbtree_insert` and `rbtree_delete` on the tree of an address space

## Main results

* `run_lookup_eq`: over the trees that runs build, the search agrees with the walk
* `lookup_differs_at_zero`: it does not for the address 0 in a region that starts there
-/

namespace Ukernel.Mm

open Lib Lib.RbTree VmmRegion Resources

/-- What happens to the tree of an address space. -/
inductive TreeOp where
  | insert (r : VmmRegion)
  | delete (node : Nat)

/-- A region enters the tree in a new block, if there is one, or it leaves with its block. -/
def TreeOp.exec : Resources × Vcb → TreeOp → Resources × Vcb
  | (mm, v), .insert r =>
    let (node, mm) := mm.kmalloc
    if node = 0 then (mm, v) else (mm, v.insert mm.fuel node r)
  | (mm, v), .delete node => (mm.kfree node, v.delete mm.fuel node)

end Ukernel.Mm
