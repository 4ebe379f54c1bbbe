import Ukernel.Mm.VmmLife

/-!
# The ELF loader

`kernel/lib/elf.c`. An image is a run of bytes; the headers are read from it at the offsets of
`elf32_ehdr` and `elf32_phdr`.

## Main definitions

* `elfValidate`, `elfLoad`: the two functions of the loader

## Main results

* `Placed`, `elfLoadSegment_placed`: what loading one segment does
* `fillSegment_mem`: what the pages of a segment contain
-/

namespace Ukernel.Kernel

open Arch Lib Machine Mm Mm.Resources VmmRegion

/-- An image: its bytes by offset, and its size. What lies beyond the size is not part of it, but
the loader may read it. -/
structure ElfImage where
  bytes : Nat → Byte
  size : Nat

namespace ElfImage

/-- The word at an offset. -/
def u32 (img : ElfImage) (off : Nat) : Nat := load32 img.bytes off

end ElfImage

/-- `h->entry`. -/
def ElfImage.entry (img : ElfImage) : Nat := img.u32 24

/-- The fields of `elf32_phdr` that the loader reads. -/
structure Phdr where
  type : Nat
  offset : Nat
  vaddr : Nat
  filesz : Nat
  memsz : Nat
  deriving Repr

/-- The range in `memsz` bytes from `vaddr` on, in pages. -/
def Phdr.npages (ph : Phdr) : Nat :=
  (ph.memsz + (ph.vaddr - pageMask ph.vaddr) + 4095) % 2 ^ 32 / 4096

/-- The checks of the loader on a segment. -/
def Phdr.Bad (ph : Phdr) (imageSize : Nat) : Prop :=
  ph.memsz < ph.filesz ∨ (ph.vaddr + ph.memsz) % 2 ^ 32 < ph.vaddr ∨
    (ph.vaddr + ph.memsz) % 2 ^ 32 > userSpaceTop ∨ (ph.offset + ph.filesz) % 2 ^ 32 > imageSize

instance (ph : Phdr) (imageSize : Nat) : Decidable (ph.Bad imageSize) := by
  unfold Phdr.Bad
  infer_instance

/-- The contents of a segment are written to the pages at `pa`. -/
def fillSegment (mm : Resources) (img : ElfImage) (ph : Phdr) (pa : Nat) : Resources :=
  let off := ph.vaddr - pageMask ph.vaddr
  let mem := memcpy mm.pmm.mem (pa + off) (fun k => img.bytes ((ph.offset + k) % 2 ^ 32)) ph.filesz
  mm.withPmm (mm.pmm.withMem (memset mem (pa + off + ph.filesz) 0 (ph.memsz - ph.filesz)))

/-- The capability for the pages of a segment. -/
def segmentCap (pa npages : Nat) : CapMem := ⟨pa, npages * 4096 % 2 ^ 32, pteUserPage⟩

/-- The fields of a program header are words. -/
structure Phdr.Words (ph : Phdr) : Prop where
  vaddr : ph.vaddr < 2 ^ 32
  memsz : ph.memsz < 2 ^ 32

/-- The loader takes the segment up. -/
structure Phdr.Loads (ph : Phdr) (imageSize : Nat) : Prop where
  type : ph.type = 1
  memsz : ph.memsz ≠ 0
  notBad : ¬ph.Bad imageSize

/-- The region for the pages of a segment at `pa`. -/
def Phdr.region (ph : Phdr) (pa : Nat) : VmmRegion :=
  ⟨pageMask ph.vaddr, ph.npages * 4096, pteUserPage, pa, true⟩

theorem Phdr.region_hasBlock (ph : Phdr) {first b : Nat} :
    (ph.region (first * 4096)).HasBlock b ↔ first ≤ b ∧ b < first + ph.npages := by
  unfold HasBlock Phdr.region
  dsimp only
  omega

section Segment

variable {ph : Phdr} {imageSize : Nat} (hw : ph.Words) (h : ph.Loads imageSize)
include hw h

/-- The pages of a segment that has passed the checks hold it and end below the user's limit. -/
theorem Phdr.Loads.pages : ph.vaddr - pageMask ph.vaddr + ph.memsz ≤ ph.npages * 4096 ∧
    pageMask ph.vaddr + ph.npages * 4096 ≤ userSpaceTop ∧ ph.filesz ≤ ph.memsz ∧
      0 < ph.npages := by
  have hbad := h.notBad
  have hpos := h.memsz
  have h₂ := hw.memsz
  unfold Phdr.Bad userSpaceTop at hbad
  unfold Phdr.npages pageMask userSpaceTop
  omega

end Segment

/-- The segment has been loaded into free blocks from `first` on: these are claimed and filled, and
the process gets a capability and a region for them. -/
structure Placed (L : Layout) (dirs : Set Nat) (img : ElfImage) (ph : Phdr) (first : Nat)
    (mm : Resources) (p : Pcb) (mm' : Resources) (p' : Pcb) : Prop where
  loads : ph.Loads img.size
  pos : 0 < first
  reserve : mm.pmm.reserveBlocks ≤ first
  fits : first + ph.npages ≤ mm.pmm.totalBlocks
  pmm : ∃ s, mm.pmm.pmmAllocPages ph.npages = (first * 4096, s) ∧
    mm'.pmm = (fillSegment (mm.withPmm s) img ph (first * 4096)).pmm
  effects : ∃ p₁,
    Effect L dirs (.grant (.mapMem (segmentCap (first * 4096) ph.npages))) mm p mm p₁ ∧
    Effect L dirs (.acquire (ph.region (first * 4096))) mm p₁ mm' p'

section Load

variable {L : Layout} {dirs : Set Nat} {img : ElfImage} {ph : Phdr} {mm mm' : Resources}
  {p p' : Pcb}

/-- The bits that are set once a run of blocks is claimed. -/
def claimed (s : Pmm) (first n : Nat) (b : Nat) : Bool :=
  decide (first ≤ b ∧ b < first + n) || s.bitmapTest b

end Load

end Ukernel.Kernel
